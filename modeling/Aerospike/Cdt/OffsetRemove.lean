import Aerospike.Cdt.ListOffset
import Aerospike.Cdt.Mask

/-! # Offset indexes after removing elements

Removing elements from a list or a map writes the offset index of the new
particle from the old full one instead of scanning the new contents.
`list_offset_index_rm_mask_cpy` (`particle_list.c`) does it for the elements a
mask marks, into a full index or into a list's partial one (an entry per 128
elements); the map's `offidx_op` (`particle_map.c`) copies the runs between the
removed elements, or around a removed range, with `offset_index_copy`. Either
way an entry of the new index is an entry of the old one less the sizes of the
elements removed before it.

Entry `q` of the new index is the offset of the `q`-th kept element. The copies
read it at a source element with `q` kept elements before it, which need not be
kept itself: the partial copy reads the element at `128 p` plus the number
removed so far, and that element may be removed. The offset of any element less
the sizes removed before it is the offset of the next kept element, so the entry
is right all the same (`eleOffset_sub_removed`).
-/

namespace Aerospike.Cdt

variable {α : Type}

/-! ### Kept and removed elements -/

section Kept

variable (mask : ℕ → Bool) (eles : List α)

/-- The elements before `s` that stay. -/
def keptBefore (s : ℕ) : List α := maskedEles mask false 0 (eles.take s)

/-- The elements before `s` that are removed. -/
def removedBefore (s : ℕ) : List α := maskedEles mask true 0 (eles.take s)

variable (sz : α → ℕ)

theorem length_maskedEles_add : ∀ (i : ℕ) (xs : List α),
    (maskedEles mask true i xs).length + (maskedEles mask false i xs).length = xs.length
  | _, [] => rfl
  | i, x :: xs => by
    have ih := length_maskedEles_add (i + 1) xs
    cases hm : mask i <;>
      simp only [maskedEles, hm, reduceIte, Bool.false_eq_true, Bool.true_eq_false, List.length_cons] <;>
      omega

theorem sum_maskedEles_add : ∀ (i : ℕ) (xs : List α),
    ((maskedEles mask true i xs).map sz).sum + ((maskedEles mask false i xs).map sz).sum = (xs.map sz).sum
  | _, [] => rfl
  | i, x :: xs => by
    have ih := sum_maskedEles_add (i + 1) xs
    cases hm : mask i <;>
      simp only [maskedEles, hm, reduceIte, Bool.false_eq_true, Bool.true_eq_false, List.map_cons,
        List.sum_cons] <;>
      omega

theorem eleOffset_append_length (xs ys : List α) : eleOffset sz (xs ++ ys) xs.length = (xs.map sz).sum := by
  rw [eleOffset, List.take_left]

theorem maskedEles_eq_keptBefore_append (s : ℕ) :
    maskedEles mask false 0 eles = keptBefore mask eles s ++ maskedEles mask false (eles.take s).length (eles.drop s) := by
  conv_lhs => rw [← List.take_append_drop s eles]
  rw [maskedEles_append, Nat.zero_add]
  rfl

theorem eleOffset_sub_removed (s : ℕ) :
    eleOffset sz eles s - ((removedBefore mask eles s).map sz).sum =
      eleOffset sz (maskedEles mask false 0 eles) (keptBefore mask eles s).length := by
  have hsplit : ((maskedEles mask true 0 (eles.take s)).map sz).sum +
      ((maskedEles mask false 0 (eles.take s)).map sz).sum = ((eles.take s).map sz).sum :=
    sum_maskedEles_add mask sz 0 _
  rw [maskedEles_eq_keptBefore_append mask eles s, eleOffset_append_length, eleOffset, removedBefore, keptBefore]
  omega

theorem length_keptBefore_add {s : ℕ} (hs : s ≤ eles.length) :
    (keptBefore mask eles s).length + (removedBefore mask eles s).length = s := by
  have h : (maskedEles mask true 0 (eles.take s)).length + (maskedEles mask false 0 (eles.take s)).length =
      (eles.take s).length := length_maskedEles_add mask 0 _
  rw [List.length_take_of_le hs] at h
  rw [keptBefore, removedBefore]
  omega

theorem removedBefore_append {lo hi : ℕ} (hlo : lo ≤ hi) (hhi : hi ≤ eles.length) :
    removedBefore mask eles hi = removedBefore mask eles lo ++ maskedEles mask true lo (eles.extract lo hi) := by
  rw [removedBefore, removedBefore, ← take_append_extract eles hlo, maskedEles_append,
    List.length_take_of_le (by omega), Nat.zero_add]

theorem length_removedBefore_mono {lo hi : ℕ} (hlo : lo ≤ hi) (hhi : hi ≤ eles.length) :
    (removedBefore mask eles lo).length ≤ (removedBefore mask eles hi).length := by
  rw [removedBefore_append mask eles hlo hhi, List.length_append]
  exact Nat.le_add_right _ _

theorem length_removedBefore_le_add {lo hi : ℕ} (hlo : lo ≤ hi) (hhi : hi ≤ eles.length) :
    (removedBefore mask eles hi).length ≤ (removedBefore mask eles lo).length + (hi - lo) := by
  have h := length_maskedEles_add mask lo (eles.extract lo hi)
  rw [removedBefore_append mask eles hlo hhi, List.length_append]
  simp only [List.extract_eq_take_drop, List.length_take, List.length_drop] at h ⊢
  omega

theorem removedBefore_of_unmarked {lo hi : ℕ} (hlo : lo ≤ hi) (hhi : hi ≤ eles.length)
    (h : ∀ j, lo ≤ j → j < hi → mask j = false) : removedBefore mask eles hi = removedBefore mask eles lo :=
  maskedEles_take_of_forall_ne hlo hhi fun j h1 h2 => by rw [h j h1 h2]; decide

theorem removedBefore_succ_of_marked {f : ℕ} (hf : f < eles.length) (hm : mask f = true) :
    removedBefore mask eles (f + 1) = removedBefore mask eles f ++ [eles[f]] := by
  rw [removedBefore, maskedEles_take_of_forall (Nat.le_succ f) hf fun j h1 h2 => by
    rw [show j = f by omega]; exact hm]
  rw [List.extract_eq_take_drop, List.drop_eq_getElem_cons hf, show f.succ - f = 1 by omega,
    List.take_succ_cons, List.take_zero]
  rfl

theorem unmarked_of_length_removedBefore {lo hi : ℕ} (hhi : hi ≤ eles.length)
    (h : (removedBefore mask eles hi).length = (removedBefore mask eles lo).length) :
    ∀ j, lo ≤ j → j < hi → mask j = false := by
  intro j hj1 hj2
  cases hm : mask j
  · rfl
  · have h1 := length_removedBefore_mono mask eles hj1 (by omega)
    have h2 := congrArg List.length (removedBefore_succ_of_marked mask eles (by omega) hm)
    have h3 := length_removedBefore_mono mask eles (show j + 1 ≤ hi by omega) hhi
    rw [List.length_append, List.length_singleton] at h2
    omega

end Kept

/-! ### Writing shifted entries -/

namespace OffsetIndex

/-- The entries `1 ≤ k < K` of `o` below its entry count are the offsets of
every `step`-th element: `Valid` up to `K`. -/
def EntriesBelow (o : OffsetIndex) (step : ℕ) (offs : ℕ → ℕ) (K : ℕ) : Prop :=
  ∀ k, 0 < k → k < K → k < o.eleCount → o.entries k = offs (k * step)

theorem entries_set (o : OffsetIndex) (idx value q : ℕ) :
    (o.set idx value).entries q = if q = idx ∧ idx ≠ 0 ∧ idx ≠ o.eleCount then value else o.entries q := by
  by_cases h : idx = 0 ∨ idx = o.eleCount
  · rw [set, if_pos h, if_neg (by omega)]
  · rw [set, if_neg h]
    dsimp only
    rw [Function.update_apply]
    by_cases hq : q = idx
    · rw [if_pos hq, if_pos ⟨hq, by omega⟩]
    · rw [if_neg hq, if_neg (by omega)]

theorem set_contentSz (o : OffsetIndex) (idx value : ℕ) : (o.set idx value).contentSz = o.contentSz := by
  unfold set
  split_ifs <;> rfl

theorem set_filled (o : OffsetIndex) (idx value : ℕ) : (o.set idx value).filled = o.filled := by
  unfold set
  split_ifs <;> rfl

section Copy

variable {dest src : OffsetIndex} {n : ℕ} {offs V : ℕ → ℕ} {dStart : ℕ}

/-- The entry loop of `offset_index_copy` from a full index, each value shifted
by `delta` the entry `V` wants at its place: the entries are right up to the
end of the copy. By induction on the entries copied. -/
theorem copyLoop_entriesBelow (hsrc : src.IsFull n offs) (h0 : offs 0 = 0) (hK : dest.EntriesBelow 1 V dStart)
    (sStart : ℕ) (delta : ℤ) : ∀ count, sStart + count ≤ n →
      (∀ k, k < count → 0 < dStart + k → ((offs (sStart + k) : ℤ) + delta).toNat = V (dStart + k)) →
      ∃ d, copyLoop dest src dStart sStart delta count = some d ∧ d.eleCount = dest.eleCount ∧
        d.contentSz = dest.contentSz ∧ d.filled = dest.filled ∧ d.EntriesBelow 1 V (dStart + count)
  | 0, _, _ => ⟨dest, rfl, rfl, rfl, rfl, hK⟩
  | count + 1, hs, hv => by
    obtain ⟨d, hd, he, hc, hf, hent⟩ := copyLoop_entriesBelow hsrc h0 hK sStart delta count (by omega)
      fun k hk => hv k (by omega)
    refine ⟨d.set (dStart + count) ((offs (sStart + count) : ℤ) + delta).toNat, ?_,
      by rw [set_eleCount, he], by rw [set_contentSz, hc], by rw [set_filled, hf], fun k hk0 hk hkE => ?_⟩
    · rw [copyLoop, hd, Option.bind_some, hsrc.getConst h0 (by omega)]
      rfl
    · rw [set_eleCount] at hkE
      rw [entries_set]
      split_ifs with hq
      · rw [hq.1, hv count (by omega) (by omega), Nat.mul_one]
      · have hlt : k < dStart + count := by
          by_contra hge
          exact hq ⟨by omega, by omega, by omega⟩
        exact hent k hk0 hlt hkE

/-- `offset_index_copy` from a full index, to places no further on than those
it reads: both the raw copy and the shifted one leave the entries right up to
the end of the copy. -/
theorem copy_entriesBelow (hsrc : src.IsFull n offs) (h0 : offs 0 = 0) (hK : dest.EntriesBelow 1 V dStart)
    (sStart count : ℕ) (delta : ℤ) (hds : dStart ≤ sStart) (hd : dStart + count ≤ dest.eleCount) (hs : sStart + count ≤ n)
    (hv : ∀ k, k < count → 0 < dStart + k → ((offs (sStart + k) : ℤ) + delta).toNat = V (dStart + k)) :
    ∃ d, dest.copy src dStart sStart count delta = some d ∧ d.eleCount = dest.eleCount ∧
      d.contentSz = dest.contentSz ∧ d.filled = dest.filled ∧ d.EntriesBelow 1 V (dStart + count) := by
  have hn := hsrc.eleCount_eq
  unfold copy
  rw [if_neg (by omega)]
  split_ifs with hraw
  · refine ⟨_, rfl, rfl, rfl, rfl, fun k hk0 hk hkE => ?_⟩
    dsimp only
    split_ifs with hin
    · have hsk := hsrc.valid (k - dStart + sStart) (by omega)
        (by rw [getFilled, if_neg (by omega), hsrc.filled_eq]; omega) (by omega)
      have hvk := hv (k - dStart) (by omega) (by omega)
      rw [hraw.2, Int.add_zero, Int.toNat_natCast, show sStart + (k - dStart) = k - dStart + sStart by omega,
        show dStart + (k - dStart) = k by omega] at hvk
      rw [hsk, Nat.mul_one, Nat.mul_one, hvk]
    · exact hK k hk0 (by omega) hkE
  · exact copyLoop_entriesBelow hsrc h0 hK sStart delta count hs hv

end Copy

theorem setFilled_isFull {d : OffsetIndex} {m : ℕ} {offs : ℕ → ℕ} (he : d.eleCount = m)
    (hc : d.contentSz = offs m) (hent : d.EntriesBelow 1 offs m) :
    ∃ d', d.setFilled d.eleCount = some d' ∧ d'.IsFull m offs := by
  by_cases h0 : d.eleCount = 0
  · have := d.filled_le
    exact ⟨d, by rw [setFilled, if_pos h0], ⟨he, by omega, hc, fun k _ _ hkE => absurd hkE (by omega)⟩⟩
  · refine ⟨_, setFilled_of_le (by omega) le_rfl, ⟨he, he, hc, fun k hk0 _ hkE => ?_⟩⟩
    have hkE' : k < d.eleCount := hkE
    exact hent k hk0 (by omega) hkE'

end OffsetIndex

/-- The `for (j = 1; j < diff; j++)` loops of `list_offset_index_rm_mask_cpy`,
with `diff - 1` for `count`: entry `dIdx j` of `dst` set to entry `sIdx j` of
`src` less `delta`, for `j` from `1` to `count`. -/
def setShiftedEntries (dst src : OffsetIndex) (dIdx sIdx : ℕ → ℕ) (delta : ℕ) : ℕ → Option OffsetIndex
  | 0 => some dst
  | count + 1 => (setShiftedEntries dst src dIdx sIdx delta count).bind fun d =>
    (src.getConst (sIdx (count + 1))).map fun offset => d.set (dIdx (count + 1)) (offset - delta)

section Shifted

variable {dst src : OffsetIndex}

theorem setShiftedEntries_spec {dIdx sIdx : ℕ → ℕ} {delta : ℕ} {V : ℕ → ℕ} :
    ∀ count, (∀ j, 1 ≤ j → j ≤ count → ∃ o, src.getConst (sIdx j) = some o ∧ o - delta = V (dIdx j)) →
      ∃ d, setShiftedEntries dst src dIdx sIdx delta count = some d ∧ d.eleCount = dst.eleCount ∧
        d.contentSz = dst.contentSz ∧ d.filled = dst.filled ∧ (∀ q, d.entries q = dst.entries q ∨ d.entries q = V q) ∧
        ∀ j, 1 ≤ j → j ≤ count → dIdx j ≠ 0 → dIdx j ≠ dst.eleCount → d.entries (dIdx j) = V (dIdx j)
  | 0, _ => ⟨dst, rfl, rfl, rfl, rfl, fun _ => Or.inl rfl, fun j h1 h2 => absurd h2 (by omega)⟩
  | count + 1, hw => by
    obtain ⟨d, hd, he, hc, hf, hframe, hhit⟩ :=
      setShiftedEntries_spec count fun j h1 h2 => hw j h1 (by omega)
    obtain ⟨o, ho, hov⟩ := hw (count + 1) (by omega) le_rfl
    refine ⟨d.set (dIdx (count + 1)) (o - delta), ?_, by rw [OffsetIndex.set_eleCount, he],
      by rw [OffsetIndex.set_contentSz, hc], by rw [OffsetIndex.set_filled, hf], fun q => ?_, ?_⟩
    · rw [setShiftedEntries, hd, Option.bind_some, ho, Option.map_some]
    · rw [OffsetIndex.entries_set]
      split_ifs with hq
      · rw [hq.1, hov]
        exact Or.inr rfl
      · exact hframe q
    · intro j h1 h2 h0 hE
      rw [OffsetIndex.entries_set]
      by_cases hj : dIdx j = dIdx (count + 1) ∧ dIdx (count + 1) ≠ 0 ∧ dIdx (count + 1) ≠ d.eleCount
      · rw [if_pos hj, hov, hj.1]
      · rw [if_neg hj]
        have hjc : j ≤ count := by
          by_contra hjc
          have hj' : j = count + 1 := by omega
          subst hj'
          exact hj ⟨rfl, h0, by rw [he]; exact hE⟩
        exact hhit j h1 hjc h0 hE

theorem setShiftedEntries_entriesBelow (dIdx sIdx : ℕ → ℕ) (delta count K' : ℕ) {step K : ℕ}
    {offs : ℕ → ℕ} (hK : dst.EntriesBelow step offs K)
    (hw : ∀ j, 1 ≤ j → j ≤ count → ∃ o, src.getConst (sIdx j) = some o ∧ o - delta = offs (dIdx j * step))
    (hcover : ∀ k, K ≤ k → k < K' → 0 < k → ∃ j, 1 ≤ j ∧ j ≤ count ∧ dIdx j = k) :
    ∃ d, setShiftedEntries dst src dIdx sIdx delta count = some d ∧ d.eleCount = dst.eleCount ∧
      d.contentSz = dst.contentSz ∧ d.filled = dst.filled ∧ d.EntriesBelow step offs (max K K') := by
  obtain ⟨d, hd, he, hc, hf, hframe, hhit⟩ := setShiftedEntries_spec (V := fun k => offs (k * step)) count hw
  refine ⟨d, hd, he, hc, hf, fun k h0 hk hkE => ?_⟩
  by_cases hkK : k < K
  · rcases hframe k with h | h
    · rw [h]
      exact hK k h0 hkK (by omega)
    · exact h
  · obtain ⟨j, h1, h2, rfl⟩ := hcover k (by omega) (by omega) h0
    exact hhit j h1 h2 (by omega) (by omega)

end Shifted

/-! ### `list_offset_index_rm_mask_cpy` -/

/-- The loop over the removed elements of `list_offset_index_rm_mask_cpy` into a
full index, `count` rounds from round `i`: the kept elements between the last
removed one, `prev`, and the next, found from `idx`, move down by `i`. The
answer is `delta`, `prev` and the index after the rounds. -/
def rmMaskCpyFullLoop (fullSrc : OffsetIndex) (rmMask : ℕ → Bool) :
    ℕ → ℕ → ℕ → ℕ → ℕ → OffsetIndex → Option (ℕ × ℕ × OffsetIndex)
  | 0, _, delta, prev, _, dst => some (delta, prev, dst)
  | count + 1, i, delta, prev, idx, dst => do
    let idx ← cdtIdxMaskFind rmMask idx fullSrc.eleCount false
    let sz ← fullSrc.getDeltaConst idx
    let diff := Word.subU32 idx prev
    let dst ← setShiftedEntries dst fullSrc (fun j => prev + j - i) (fun j => prev + j) delta (diff - 1)
    rmMaskCpyFullLoop fullSrc rmMask count (i + 1) (delta + sz) idx (idx + 1) dst

/-- The loop over the removed elements of `list_offset_index_rm_mask_cpy` into a
partial index: the entries from the last block, `prevParIdx`, up to the block
of the kept position of the next removed element are read `i` elements further
on. The answer is `delta`, `prevParIdx` and the index after the rounds. -/
def rmMaskCpyPartialLoop (fullSrc : OffsetIndex) (rmMask : ℕ → Bool) :
    ℕ → ℕ → ℕ → ℕ → ℕ → OffsetIndex → Option (ℕ × ℕ × OffsetIndex)
  | 0, _, delta, prevParIdx, _, dst => some (delta, prevParIdx, dst)
  | count + 1, i, delta, prevParIdx, idx, dst => do
    let idx ← cdtIdxMaskFind rmMask idx fullSrc.eleCount false
    let sz ← fullSrc.getDeltaConst idx
    let parIdx := Word.subU32 idx i / packedListIndexStep
    let diff := Word.subU32 parIdx prevParIdx + 1
    let dst ← setShiftedEntries dst fullSrc (fun j => prevParIdx + j)
      (fun j => (prevParIdx + j) * packedListIndexStep + i) delta (diff - 1)
    rmMaskCpyPartialLoop fullSrc rmMask count (i + 1) (delta + sz) parIdx (idx + 1) dst

/-- `list_offset_index_rm_mask_cpy`: the index of the list without the
`rmCount` elements `rmMask` marks, written into `dst` (a full index, or with
`isPartial` a partial one) from the full index of the list; `none` on the
assertion of a no-op copy or on a read the source index does not hold. -/
def listOffsetIndexRmMaskCpy (dst fullSrc : OffsetIndex) (isPartial : Bool) (rmMask : ℕ → Bool)
    (rmCount : ℕ) : Option OffsetIndex :=
  if rmCount = 0 then none
  else if !isPartial then do
    let (delta, prev, dst) ← rmMaskCpyFullLoop fullSrc rmMask rmCount 0 0 0 0 dst
    let diff := fullSrc.eleCount - prev
    let dst ← setShiftedEntries dst fullSrc (fun i => prev + i - rmCount) (fun i => prev + i) delta (diff - 1)
    dst.setFilled dst.eleCount
  else do
    let (delta, prevParIdx, dst) ← rmMaskCpyPartialLoop fullSrc rmMask rmCount 0 0 0 0 dst
    let parIdx := (fullSrc.eleCount - rmCount) / packedListIndexStep
    let diff := parIdx - prevParIdx + 1
    let dst ← setShiftedEntries dst fullSrc (fun j => prevParIdx + j)
      (fun j => (prevParIdx + j) * packedListIndexStep + rmCount) delta (diff - 1)
    dst.setFilled (parIdx + 1)

section RmMaskCpy

variable (sz : α → ℕ) {eles : List α} {rmMask : ℕ → Bool} {fullSrc : OffsetIndex}

theorem cdtIdxMaskFind_next_removed (hb : eles.length + 127 < 2 ^ 32) {idx : ℕ} (hidx : idx ≤ eles.length)
    (hmore : (removedBefore rmMask eles idx).length < (removedBefore rmMask eles eles.length).length) :
    ∃ f, cdtIdxMaskFind rmMask idx eles.length false = some f ∧ idx ≤ f ∧ f < eles.length ∧
      rmMask f = true ∧ ∀ j, idx ≤ j → j < f → rmMask j = false := by
  refine ⟨_, cdtIdxMaskFind_of_le hb hidx, Scan.le_findFrom hidx, ?_, ?_, fun j h1 h2 => Scan.findFrom_miss h1 h2⟩
  · by_contra hend
    have hf : Scan.findFrom rmMask idx eles.length = eles.length :=
      le_antisymm (Scan.findFrom_le hidx) (by omega)
    have heq := removedBefore_of_unmarked rmMask eles hidx le_rfl fun j h1 h2 =>
      Scan.findFrom_miss h1 (by rw [hf]; exact h2)
    rw [heq] at hmore
    exact lt_irrefl _ hmore
  · exact Scan.findFrom_hit (by
      by_contra hend
      have hf : Scan.findFrom rmMask idx eles.length = eles.length :=
        le_antisymm (Scan.findFrom_le hidx) (by omega)
      have heq := removedBefore_of_unmarked rmMask eles hidx le_rfl fun j h1 h2 =>
        Scan.findFrom_miss h1 (by rw [hf]; exact h2)
      rw [heq] at hmore
      exact lt_irrefl _ hmore)

/-- The removed elements before `idx`: `i` of them, of sizes `delta`. -/
structure RemovedPrefix (rmMask : ℕ → Bool) (eles : List α) (i delta idx : ℕ) : Prop where
  idx_le : idx ≤ eles.length
  removed : (removedBefore rmMask eles idx).length = i
  delta_eq : ((removedBefore rmMask eles idx).map sz).sum = delta

variable {sz}

theorem RemovedPrefix.le_idx {i delta idx : ℕ} (h : RemovedPrefix sz rmMask eles i delta idx) : i ≤ idx := by
  have := length_keptBefore_add rmMask eles h.idx_le
  have := h.removed
  omega

theorem RemovedPrefix.getConst (hsrc : fullSrc.IsFull eles.length (eleOffset sz eles)) {i delta idx s : ℕ}
    (h : RemovedPrefix sz rmMask eles i delta idx) (hidx : idx ≤ s) (hs : s ≤ eles.length)
    (hun : ∀ j, idx ≤ j → j < s → rmMask j = false) :
    ∃ o, fullSrc.getConst s = some o ∧ o - delta = eleOffset sz (maskedEles rmMask false 0 eles) (s - i) := by
  have heq := removedBefore_of_unmarked rmMask eles hidx hs hun
  have hlen := length_keptBefore_add rmMask eles hs
  refine ⟨_, hsrc.getConst (eleOffset_zero eles) hs, ?_⟩
  rw [← h.delta_eq, ← heq, eleOffset_sub_removed, ← h.removed, ← heq]
  congr 1
  omega

theorem RemovedPrefix.succ {i delta idx f : ℕ} (h : RemovedPrefix sz rmMask eles i delta idx) (hidx : idx ≤ f)
    (hf : f < eles.length) (hm : rmMask f = true) (hun : ∀ j, idx ≤ j → j < f → rmMask j = false) :
    RemovedPrefix sz rmMask eles (i + 1) (delta + sz eles[f]) (f + 1) := by
  have heq : removedBefore rmMask eles (f + 1) = removedBefore rmMask eles idx ++ [eles[f]] := by
    rw [removedBefore_succ_of_marked rmMask eles hf hm, removedBefore_of_unmarked rmMask eles hidx hf.le hun]
  refine ⟨hf, ?_, ?_⟩
  · rw [heq, List.length_append, h.removed, List.length_singleton]
  · rw [heq, List.map_append, List.sum_append, h.delta_eq, List.map_singleton, List.sum_singleton]

theorem RemovedPrefix.skipRange {i delta idx lo c : ℕ} (h : RemovedPrefix sz rmMask eles i delta idx)
    (hidx : idx ≤ lo) (hhi : lo + c ≤ eles.length) (hun : ∀ j, idx ≤ j → j < lo → rmMask j = false)
    (hm : ∀ j, lo ≤ j → j < lo + c → rmMask j = true) :
    RemovedPrefix sz rmMask eles (i + c) (delta + (eleOffset sz eles (lo + c) - eleOffset sz eles lo)) (lo + c) := by
  have heq : removedBefore rmMask eles (lo + c) = removedBefore rmMask eles idx ++ eles.extract lo (lo + c) := by
    rw [removedBefore, maskedEles_take_of_forall (Nat.le_add_right lo c) hhi hm, ← removedBefore,
      removedBefore_of_unmarked rmMask eles hidx (by omega) hun]
  have hoff : eleOffset sz eles (lo + c) = eleOffset sz eles lo + ((eles.extract lo (lo + c)).map sz).sum := by
    rw [eleOffset, eleOffset, ← take_append_extract eles (Nat.le_add_right lo c), List.map_append, List.sum_append]
  refine ⟨hhi, ?_, ?_⟩
  · rw [heq, List.length_append, h.removed, List.extract_eq_take_drop, List.length_take, List.length_drop]
    omega
  · rw [heq, List.map_append, List.sum_append, h.delta_eq, hoff]
    omega

theorem removedPrefix_zero : RemovedPrefix sz rmMask eles 0 0 0 :=
  ⟨Nat.zero_le _, by simp [removedBefore, maskedEles], by simp [removedBefore, maskedEles]⟩

theorem getDeltaConst_of_isFull (hsrc : fullSrc.IsFull eles.length (eleOffset sz eles)) {f : ℕ}
    (hf : f < eles.length) : fullSrc.getDeltaConst f = some (sz eles[f]) := by
  rw [hsrc.getDeltaConst (eleOffset_zero eles) hf, eleOffset_succ hf, Nat.add_sub_cancel_left]

/-- The state of the full copy before round `i`: the removed elements before
`idx`, `prev` the last of them (or `0` before the first round), and the new
entries right below the kept position of `idx`. -/
structure FullCpyInv (sz : α → ℕ) (rmMask : ℕ → Bool) (eles : List α) (i delta prev idx : ℕ)
    (dst : OffsetIndex) : Prop extends RemovedPrefix sz rmMask eles i delta idx where
  prev_eq : prev + 1 = idx ∨ prev = 0 ∧ idx = 0
  entries : dst.EntriesBelow 1 (eleOffset sz (maskedEles rmMask false 0 eles)) (idx - i)

theorem FullCpyInv.round (hsrc : fullSrc.IsFull eles.length (eleOffset sz eles))
    (hb : eles.length + 127 < 2 ^ 32) (count : ℕ)
    {i delta prev idx : ℕ} {dst : OffsetIndex} (h : FullCpyInv sz rmMask eles i delta prev idx dst)
    (hmore : i < (removedBefore rmMask eles eles.length).length) :
    ∃ f, ∃ hf : f < eles.length, ∃ dst', rmMaskCpyFullLoop fullSrc rmMask (count + 1) i delta prev idx dst =
        rmMaskCpyFullLoop fullSrc rmMask count (i + 1) (delta + sz eles[f]) f (f + 1) dst' ∧
      FullCpyInv sz rmMask eles (i + 1) (delta + sz eles[f]) f (f + 1) dst' ∧
      dst'.eleCount = dst.eleCount ∧ dst'.contentSz = dst.contentSz ∧ dst'.filled = dst.filled := by
  have hi := h.le_idx
  have hp := h.prev_eq
  obtain ⟨f, hfind, hf1, hf2, hm, hun⟩ :=
    cdtIdxMaskFind_next_removed hb h.idx_le (by rw [h.removed]; exact hmore)
  obtain ⟨d, hd, he, hc, hfl, hent⟩ := setShiftedEntries_entriesBelow (fun j => prev + j - i)
    (fun j => prev + j) delta (f - prev - 1) (f - i) h.entries
    (fun j h1 h2 => by
      obtain ⟨o, ho, hov⟩ := h.getConst hsrc (s := prev + j) (by omega) (by omega)
        fun j' h1' h2' => hun j' h1' (by omega)
      exact ⟨o, ho, by rw [hov, Nat.mul_one]⟩)
    (fun k h1 h2 h0 => ⟨k + i - prev, by omega, by omega, by omega⟩)
  refine ⟨f, hf2, d, ?_, ⟨h.succ hf1 hf2 hm hun, Or.inl rfl, ?_⟩, he, hc, hfl⟩
  · rw [← hsrc.eleCount_eq] at hfind
    have hdiff : Word.subU32 f prev = f - prev := Word.subU32_eq_sub (by omega) (by omega)
    simp only [rmMaskCpyFullLoop, hfind, getDeltaConst_of_isFull hsrc hf2, hdiff, hd, Option.bind_eq_bind,
      Option.bind_some]
  · rw [show f + 1 - (i + 1) = max (idx - i) (f - i) by omega]
    exact hent

theorem rmMaskCpyFullLoop_spec (hsrc : fullSrc.IsFull eles.length (eleOffset sz eles))
    (hb : eles.length + 127 < 2 ^ 32) :
    ∀ (count i delta prev idx : ℕ) (dst : OffsetIndex), FullCpyInv sz rmMask eles i delta prev idx dst →
      i + count ≤ (removedBefore rmMask eles eles.length).length →
      ∃ delta' prev' idx' dst', rmMaskCpyFullLoop fullSrc rmMask count i delta prev idx dst = some (delta', prev', dst') ∧
        FullCpyInv sz rmMask eles (i + count) delta' prev' idx' dst' ∧
        dst'.eleCount = dst.eleCount ∧ dst'.contentSz = dst.contentSz ∧ dst'.filled = dst.filled
  | 0, i, delta, prev, idx, dst, h, _ => ⟨delta, prev, idx, dst, rfl, h, rfl, rfl, rfl⟩
  | count + 1, i, delta, prev, idx, dst, h, hc => by
    obtain ⟨f, hf, d, hrun, hinv, he, hcs, hfl⟩ := h.round hsrc hb count (by omega)
    obtain ⟨delta', prev', idx', dst', hrun', hinv', he', hc', hf'⟩ :=
      rmMaskCpyFullLoop_spec hsrc hb count (i + 1) _ _ _ d hinv (by omega)
    refine ⟨delta', prev', idx', dst', by rw [hrun, hrun'], ?_, by rw [he', he], by rw [hc', hcs],
      by rw [hf', hfl]⟩
    rw [show i + (count + 1) = i + 1 + count by omega]
    exact hinv'

theorem fullCpyInv_zero (dst : OffsetIndex) : FullCpyInv sz rmMask eles 0 0 0 0 dst :=
  ⟨removedPrefix_zero, Or.inr ⟨rfl, rfl⟩, fun _ _ hk _ => absurd hk (by omega)⟩

/-- `list_offset_index_rm_mask_cpy` into a full index of the kept count and
size: the rounds, then the kept elements after the last removed one, give a
full index of the kept elements. -/
theorem listOffsetIndexRmMaskCpy_full (hsrc : fullSrc.IsFull eles.length (eleOffset sz eles))
    (hb : eles.length + 127 < 2 ^ 32) {dst : OffsetIndex} {rmCount : ℕ} (hrm : (removedBefore rmMask eles eles.length).length = rmCount)
    (hpos : 0 < rmCount) (hd : dst.eleCount = eles.length - rmCount)
    (hc : dst.contentSz = eleOffset sz (maskedEles rmMask false 0 eles) (eles.length - rmCount)) :
    ∃ d, listOffsetIndexRmMaskCpy dst fullSrc false rmMask rmCount = some d ∧
      d.IsFull (eles.length - rmCount) (eleOffset sz (maskedEles rmMask false 0 eles)) := by
  obtain ⟨delta, prev, idx, d1, hrun, hinv, he, hcs, -⟩ :=
    rmMaskCpyFullLoop_spec hsrc hb rmCount 0 0 0 0 dst (fullCpyInv_zero dst : FullCpyInv sz rmMask eles 0 0 0 0 dst)
      (by omega)
  rw [Nat.zero_add] at hinv
  have hi := hinv.le_idx
  have hp := hinv.prev_eq
  have hrem := hinv.removed
  have hidx0 : idx ≠ 0 := fun h0 => by
    rw [h0] at hrem
    simp [removedBefore, maskedEles] at hrem
    omega
  have hun := unmarked_of_length_removedBefore rmMask eles le_rfl (by rw [hrem, hrm])
  obtain ⟨d2, hd2, he2, hc2, -, hent⟩ := setShiftedEntries_entriesBelow (fun i => prev + i - rmCount)
    (fun i => prev + i) delta (eles.length - prev - 1) (eles.length - rmCount) hinv.entries
    (fun j h1 h2 => by
      obtain ⟨o, ho, hov⟩ := hinv.getConst hsrc (s := prev + j) (by omega) (by omega)
        fun j' h1' h2' => hun j' h1' (by omega)
      exact ⟨o, ho, by rw [hov, Nat.mul_one]⟩)
    (fun k h1 h2 h0 => ⟨k + rmCount - prev, by omega, by omega, by omega⟩)
  obtain ⟨d, hset, hfull⟩ := OffsetIndex.setFilled_isFull (d := d2) (by rw [he2, he, hd])
    (by rw [hc2, hcs, hc]) fun k h0 hk hkE => hent k h0 (by omega) hkE
  refine ⟨d, ?_, hfull⟩
  simp only [listOffsetIndexRmMaskCpy, if_neg (Nat.pos_iff_ne_zero.mp hpos), Bool.not_false, if_true, hrun,
    Option.bind_eq_bind, Option.bind_some, hsrc.eleCount_eq, hd2, hset]

/-- The state of the partial copy before round `i`: the removed elements before
`idx`, `prevParIdx` the block of the kept position of `idx`, and the new
entries right up to it. -/
structure PartialCpyInv (sz : α → ℕ) (rmMask : ℕ → Bool) (eles : List α) (i delta prevParIdx idx : ℕ)
    (dst : OffsetIndex) : Prop extends RemovedPrefix sz rmMask eles i delta idx where
  prev_eq : prevParIdx = (idx - i) / packedListIndexStep
  entries : dst.EntriesBelow packedListIndexStep (eleOffset sz (maskedEles rmMask false 0 eles)) (prevParIdx + 1)

theorem partialCpyInv_zero (dst : OffsetIndex) : PartialCpyInv sz rmMask eles 0 0 0 0 dst :=
  ⟨removedPrefix_zero, rfl, fun _ h0 hk _ => absurd hk (by omega)⟩

theorem PartialCpyInv.getConst (hsrc : fullSrc.IsFull eles.length (eleOffset sz eles))
    {i delta prevParIdx idx stop p : ℕ} {dst : OffsetIndex} (h : PartialCpyInv sz rmMask eles i delta prevParIdx idx dst)
    (hp : prevParIdx < p) (hstop : p * packedListIndexStep + i ≤ stop) (hn : stop ≤ eles.length)
    (hun : ∀ j, idx ≤ j → j < stop → rmMask j = false) :
    ∃ o, fullSrc.getConst (p * packedListIndexStep + i) = some o ∧
      o - delta = eleOffset sz (maskedEles rmMask false 0 eles) (p * packedListIndexStep) := by
  have h128 : packedListIndexStep = 128 := rfl
  have hi := h.le_idx
  have hpe := h.prev_eq
  rw [h128] at hpe hstop ⊢
  obtain ⟨o, ho, hov⟩ := h.toRemovedPrefix.getConst hsrc (s := p * 128 + i) (by omega) (by omega)
    fun j h1 h2 => hun j h1 (by omega)
  exact ⟨o, ho, by rw [hov, Nat.add_sub_cancel]⟩

theorem PartialCpyInv.round (hsrc : fullSrc.IsFull eles.length (eleOffset sz eles))
    (hb : eles.length + 127 < 2 ^ 32) (count : ℕ)
    {i delta prevParIdx idx : ℕ} {dst : OffsetIndex} (h : PartialCpyInv sz rmMask eles i delta prevParIdx idx dst)
    (hmore : i < (removedBefore rmMask eles eles.length).length) :
    ∃ f, ∃ hf : f < eles.length, ∃ dst', rmMaskCpyPartialLoop fullSrc rmMask (count + 1) i delta prevParIdx idx dst =
        rmMaskCpyPartialLoop fullSrc rmMask count (i + 1) (delta + sz eles[f]) ((f - i) / packedListIndexStep)
          (f + 1) dst' ∧
      PartialCpyInv sz rmMask eles (i + 1) (delta + sz eles[f]) ((f - i) / packedListIndexStep) (f + 1) dst' ∧
      dst'.eleCount = dst.eleCount ∧ dst'.contentSz = dst.contentSz ∧ dst'.filled = dst.filled := by
  have h128 : packedListIndexStep = 128 := rfl
  have hi := h.le_idx
  have hpe := h.prev_eq
  rw [h128] at hpe
  obtain ⟨f, hfind, hf1, hf2, hm, hun⟩ :=
    cdtIdxMaskFind_next_removed hb h.idx_le (by rw [h.removed]; exact hmore)
  obtain ⟨d, hd, he, hc, hfl, hent⟩ := setShiftedEntries_entriesBelow (fun j => prevParIdx + j)
    (fun j => (prevParIdx + j) * packedListIndexStep + i) delta
    ((f - i) / packedListIndexStep - prevParIdx + 1 - 1) ((f - i) / packedListIndexStep + 1) h.entries
    (fun j h1 h2 => h.getConst hsrc (p := prevParIdx + j) (by omega) (by rw [h128] at h2 ⊢; omega) hf2.le
      fun j' h1' h2' => hun j' h1' h2')
    (fun k h1 h2 h0 => ⟨k - prevParIdx, by omega, by rw [h128] at h2 ⊢; omega, by omega⟩)
  refine ⟨f, hf2, d, ?_, ⟨h.succ hf1 hf2 hm hun, by rw [h128]; omega, ?_⟩, he, hc, hfl⟩
  · rw [← hsrc.eleCount_eq] at hfind
    have hpar : Word.subU32 f i = f - i := Word.subU32_eq_sub (by omega) (by omega)
    have hdiff : Word.subU32 ((f - i) / packedListIndexStep) prevParIdx = (f - i) / packedListIndexStep - prevParIdx :=
      Word.subU32_eq_sub (by rw [h128]; omega) (by rw [h128]; omega)
    simp only [rmMaskCpyPartialLoop, hfind, getDeltaConst_of_isFull hsrc hf2, hpar, hdiff, hd, Option.bind_eq_bind,
      Option.bind_some]
  · rw [show max (prevParIdx + 1) ((f - i) / packedListIndexStep + 1) = (f - i) / packedListIndexStep + 1 by
      rw [h128]; omega] at hent
    exact hent

theorem rmMaskCpyPartialLoop_spec (hsrc : fullSrc.IsFull eles.length (eleOffset sz eles))
    (hb : eles.length + 127 < 2 ^ 32) :
    ∀ (count i delta prevParIdx idx : ℕ) (dst : OffsetIndex), PartialCpyInv sz rmMask eles i delta prevParIdx idx dst →
      i + count ≤ (removedBefore rmMask eles eles.length).length →
      ∃ delta' prevParIdx' idx' dst', rmMaskCpyPartialLoop fullSrc rmMask count i delta prevParIdx idx dst =
          some (delta', prevParIdx', dst') ∧
        PartialCpyInv sz rmMask eles (i + count) delta' prevParIdx' idx' dst' ∧
        dst'.eleCount = dst.eleCount ∧ dst'.contentSz = dst.contentSz ∧ dst'.filled = dst.filled
  | 0, i, delta, prevParIdx, idx, dst, h, _ => ⟨delta, prevParIdx, idx, dst, rfl, h, rfl, rfl, rfl⟩
  | count + 1, i, delta, prevParIdx, idx, dst, h, hc => by
    obtain ⟨f, hf, d, hrun, hinv, he, hcs, hfl⟩ := h.round hsrc hb count (by omega)
    obtain ⟨delta', prevParIdx', idx', dst', hrun', hinv', he', hc', hf'⟩ :=
      rmMaskCpyPartialLoop_spec hsrc hb count (i + 1) _ _ _ d hinv (by omega)
    refine ⟨delta', prevParIdx', idx', dst', by rw [hrun, hrun'], ?_, by rw [he', he], by rw [hc', hcs],
      by rw [hf', hfl]⟩
    rw [show i + (count + 1) = i + 1 + count by omega]
    exact hinv'

/-- `list_offset_index_rm_mask_cpy` into a partial index of the kept count:
the rounds, then the blocks after the last removed element, fill every entry of
the index with the offset of its block's first kept element. -/
theorem listOffsetIndexRmMaskCpy_partial (hsrc : fullSrc.IsFull eles.length (eleOffset sz eles))
    (hb : eles.length + 127 < 2 ^ 32) {dst : OffsetIndex} {rmCount : ℕ} (hrm : (removedBefore rmMask eles eles.length).length = rmCount)
    (hpos : 0 < rmCount) (hd : dst.eleCount = listPartialEleCount (eles.length - rmCount)) :
    ∃ d, listOffsetIndexRmMaskCpy dst fullSrc true rmMask rmCount = some d ∧ d.eleCount = dst.eleCount ∧
      d.contentSz = dst.contentSz ∧ d.filled = d.eleCount ∧
      d.Valid packedListIndexStep (eleOffset sz (maskedEles rmMask false 0 eles)) := by
  have h128 : packedListIndexStep = 128 := rfl
  obtain ⟨delta, prevParIdx, idx, d1, hrun, hinv, he, hcs, -⟩ :=
    rmMaskCpyPartialLoop_spec hsrc hb rmCount 0 0 0 0 dst
      (partialCpyInv_zero dst : PartialCpyInv sz rmMask eles 0 0 0 0 dst) (by omega)
  rw [Nat.zero_add] at hinv
  have hi := hinv.le_idx
  have hn := hinv.idx_le
  have hpe := hinv.prev_eq
  have hun := unmarked_of_length_removedBefore rmMask eles le_rfl (by rw [hinv.removed, hrm])
  obtain ⟨d2, hd2, he2, hc2, hf2, hent⟩ := setShiftedEntries_entriesBelow (fun j => prevParIdx + j)
    (fun j => (prevParIdx + j) * packedListIndexStep + rmCount) delta
    ((eles.length - rmCount) / packedListIndexStep - prevParIdx + 1 - 1)
    ((eles.length - rmCount) / packedListIndexStep + 1) hinv.entries
    (fun j h1 h2 => hinv.getConst hsrc (p := prevParIdx + j) (by omega) (by rw [h128] at h2 hpe ⊢; omega)
      le_rfl fun j' h1' h2' => hun j' h1' h2')
    (fun k h1 h2 h0 => ⟨k - prevParIdx, by omega, by rw [h128] at h2 ⊢; omega, by omega⟩)
  have hrun' : listOffsetIndexRmMaskCpy dst fullSrc true rmMask rmCount =
      d2.setFilled ((eles.length - rmCount) / packedListIndexStep + 1) := by
    simp only [listOffsetIndexRmMaskCpy, if_neg (Nat.pos_iff_ne_zero.mp hpos), Bool.not_true,
      Bool.false_eq_true, if_false, hrun, Option.bind_eq_bind, Option.bind_some, hsrc.eleCount_eq, hd2]
  rw [hrun']
  have hmax : max (prevParIdx + 1) ((eles.length - rmCount) / packedListIndexStep + 1) =
      (eles.length - rmCount) / packedListIndexStep + 1 := by
    rw [h128] at hpe ⊢
    omega
  rw [hmax] at hent
  by_cases hz : (eles.length - rmCount) / packedListIndexStep = 0
  · have h0 : d2.eleCount = 0 := by rw [he2, he, hd, listPartialEleCount, if_pos hz]
    have := d2.filled_le
    refine ⟨d2, by rw [OffsetIndex.setFilled, if_pos h0], by rw [he2, he], by rw [hc2, hcs], by omega,
      fun k _ _ hkE => absurd hkE (by omega)⟩
  · have hE : d2.eleCount = (eles.length - rmCount) / packedListIndexStep + 1 := by
      rw [he2, he, hd, listPartialEleCount, if_neg hz]
    refine ⟨_, OffsetIndex.setFilled_of_le (by omega) hE.ge, by rw [← he, ← he2], by rw [← hcs, ← hc2],
      hE.symm, fun k hk0 hkf hkE => ?_⟩
    have hkE' : k < d2.eleCount := hkE
    exact hent k hk0 (by omega) hkE'

end RmMaskCpy

/-! ### The map's `offidx_op` -/

/-- `offidx_op`: the new index being written, the next place in it and in the
source, and the shift of the entries copied next. -/
structure OffidxOp where
  dest : OffsetIndex
  dI : ℕ
  sI : ℕ
  delta : ℤ

def offidxOpInit (dest : OffsetIndex) : OffidxOp := ⟨dest, 0, 0, 0⟩

/-- `offidx_op_remove`: copy the entries up to element `index`, then skip it. -/
def offidxOpRemove (src : OffsetIndex) (op : OffidxOp) (index : ℕ) : Option OffidxOp := do
  let count := Word.subU32 index op.sI
  let memSz ← src.getDeltaConst index
  let dest ← op.dest.copy src op.dI op.sI count op.delta
  some ⟨dest, op.dI + count, op.sI + count + 1, op.delta - memSz⟩

/-- `offidx_op_remove_range`: copy the entries up to element `index`, then skip
`count` elements. -/
def offidxOpRemoveRange (src : OffsetIndex) (op : OffidxOp) (index count : ℕ) : Option OffidxOp := do
  let eleCount := src.eleCount
  let deltaCount := index - op.sI
  let offset ← src.getConst index
  let memSz ← if index + count = eleCount then some (src.contentSz - offset)
    else (src.getConst (index + count)).map (· - offset)
  let dest ← op.dest.copy src op.dI op.sI deltaCount op.delta
  some ⟨dest, op.dI + deltaCount, op.sI + deltaCount + count, op.delta - memSz⟩

/-- `offidx_op_end`: copy the entries after the last element removed and mark
the new index filled. -/
def offidxOpEnd (src : OffsetIndex) (op : OffidxOp) : Option OffsetIndex := do
  let count := src.eleCount - op.sI
  let dest ← op.dest.copy src op.dI op.sI count op.delta
  dest.setFilled (op.dI + count)

/-- The loop of `packed_map_remove_indexes` over the `count` marked elements,
each found from `rmIdx` on and removed from the new index. -/
def packedMapRemoveIndexesLoop (src : OffsetIndex) (rmMask : ℕ → Bool) :
    ℕ → ℕ → OffidxOp → Option OffidxOp
  | 0, _, op => some op
  | count + 1, rmIdx, op => do
    let rmIdx ← cdtIdxMaskFind rmMask rmIdx src.eleCount false
    let op ← offidxOpRemove src op rmIdx
    packedMapRemoveIndexesLoop src rmMask count (rmIdx + 1) op

/-- The new offset index `packed_map_remove_indexes` writes from a full one. -/
def packedMapRemoveIndexesOffidx (dest src : OffsetIndex) (rmMask : ℕ → Bool) (count : ℕ) :
    Option OffsetIndex := do
  let op ← packedMapRemoveIndexesLoop src rmMask count 0 (offidxOpInit dest)
  offidxOpEnd src op

/-- The new offset index `packed_map_remove_idx_range` writes from a full one. -/
def packedMapRemoveIdxRangeOffidx (dest src : OffsetIndex) (idx count : ℕ) : Option OffsetIndex := do
  let op ← offidxOpRemoveRange src (offidxOpInit dest) idx count
  offidxOpEnd src op

section OffidxOpRun

variable {sz : α → ℕ} {eles : List α} {rmMask : ℕ → Bool} {src : OffsetIndex}

/-- The state of an `offidx_op` run: `i` elements of sizes `rmSz` removed
before `sI`, the kept ones before it copied to the places below `dI`, and the
new index of the kept count and size. -/
structure OffidxOpInv (sz : α → ℕ) (rmMask : ℕ → Bool) (eles : List α) (i rmSz : ℕ) (op : OffidxOp) : Prop
    extends RemovedPrefix sz rmMask eles i rmSz op.sI where
  dI_add : op.dI + i = op.sI
  shift_eq : op.delta = -(rmSz : ℤ)
  dest_eleCount : op.dest.eleCount = (maskedEles rmMask false 0 eles).length
  dest_contentSz : op.dest.contentSz =
    eleOffset sz (maskedEles rmMask false 0 eles) (maskedEles rmMask false 0 eles).length
  entries : op.dest.EntriesBelow 1 (eleOffset sz (maskedEles rmMask false 0 eles)) op.dI

theorem length_maskedEles_false (rmMask : ℕ → Bool) (eles : List α) :
    (maskedEles rmMask false 0 eles).length = eles.length - (removedBefore rmMask eles eles.length).length := by
  have h := length_keptBefore_add rmMask eles (le_refl eles.length)
  rw [keptBefore, List.take_length] at h
  omega

theorem offidxOpInv_init {dest : OffsetIndex} (hd : dest.eleCount = (maskedEles rmMask false 0 eles).length)
    (hc : dest.contentSz = eleOffset sz (maskedEles rmMask false 0 eles) (maskedEles rmMask false 0 eles).length) :
    OffidxOpInv sz rmMask eles 0 0 (offidxOpInit dest) :=
  ⟨removedPrefix_zero, rfl, by simp [offidxOpInit], hd, hc, fun _ _ hk _ => absurd hk (by simp [offidxOpInit])⟩

theorem OffidxOpInv.copy (hsrc : src.IsFull eles.length (eleOffset sz eles)) {i rmSz t : ℕ} {op : OffidxOp}
    (h : OffidxOpInv sz rmMask eles i rmSz op) (ht : op.sI ≤ t) (htn : t ≤ eles.length)
    (hun : ∀ j, op.sI ≤ j → j < t → rmMask j = false) :
    ∃ d, op.dest.copy src op.dI op.sI (t - op.sI) op.delta = some d ∧ d.eleCount = op.dest.eleCount ∧
      d.contentSz = op.dest.contentSz ∧ d.EntriesBelow 1 (eleOffset sz (maskedEles rmMask false 0 eles))
        (op.dI + (t - op.sI)) := by
  have hdi := h.dI_add
  have hkept := length_maskedEles_false rmMask eles
  have hle := length_removedBefore_le_add rmMask eles htn le_rfl
  have hrt := removedBefore_of_unmarked rmMask eles ht htn hun
  rw [hrt, h.removed] at hle
  obtain ⟨d, hd, he, hc, -, hent⟩ := OffsetIndex.copy_entriesBelow hsrc (eleOffset_zero eles) h.entries
    op.sI (t - op.sI) op.delta (by omega) (by rw [h.dest_eleCount]; omega) (by omega)
    (fun k hk _ => by
      obtain ⟨o, ho, hov⟩ := h.getConst hsrc (s := op.sI + k) (Nat.le_add_right _ _) (by omega)
        fun j h1 h2 => hun j h1 (by omega)
      rw [hsrc.getConst (eleOffset_zero eles) (by omega)] at ho
      cases ho
      rw [h.shift_eq, show op.dI + k = op.sI + k - i by omega, ← hov]
      omega)
  exact ⟨d, hd, he, hc, hent⟩

theorem OffidxOpInv.remove (hsrc : src.IsFull eles.length (eleOffset sz eles)) (hb : eles.length + 127 < 2 ^ 32)
    {i rmSz f : ℕ} {op : OffidxOp}
    (h : OffidxOpInv sz rmMask eles i rmSz op) (hf1 : op.sI ≤ f) (hf2 : f < eles.length) (hm : rmMask f = true)
    (hun : ∀ j, op.sI ≤ j → j < f → rmMask j = false) :
    ∃ op', offidxOpRemove src op f = some op' ∧ op'.sI = f + 1 ∧
      OffidxOpInv sz rmMask eles (i + 1) (rmSz + sz eles[f]) op' := by
  obtain ⟨d, hd, he, hc, hent⟩ := h.copy hsrc hf1 hf2.le hun
  have hdi := h.dI_add
  have hsI : op.sI + (f - op.sI) + 1 = f + 1 := by omega
  refine ⟨⟨d, op.dI + (f - op.sI), op.sI + (f - op.sI) + 1, op.delta - (sz eles[f] : ℤ)⟩, ?_, hsI, ?_⟩
  · have hcount : Word.subU32 f op.sI = f - op.sI := Word.subU32_eq_sub hf1 (by omega)
    simp only [offidxOpRemove, hcount, getDeltaConst_of_isFull hsrc hf2, hd, Option.bind_eq_bind, Option.bind_some]
  · refine ⟨?_, by dsimp only; omega, by dsimp only; rw [h.shift_eq]; omega,
      by rw [he, h.dest_eleCount], by rw [hc, h.dest_contentSz], hent⟩
    dsimp only
    rw [hsI]
    exact h.succ hf1 hf2 hm hun

theorem OffidxOpInv.removeRange (hsrc : src.IsFull eles.length (eleOffset sz eles)) {i rmSz index count : ℕ}
    {op : OffidxOp} (h : OffidxOpInv sz rmMask eles i rmSz op) (hlo : op.sI ≤ index)
    (hhi : index + count ≤ eles.length) (hun : ∀ j, op.sI ≤ j → j < index → rmMask j = false)
    (hm : ∀ j, index ≤ j → j < index + count → rmMask j = true) :
    ∃ op', offidxOpRemoveRange src op index count = some op' ∧ op'.sI = index + count ∧
      OffidxOpInv sz rmMask eles (i + count)
        (rmSz + (eleOffset sz eles (index + count) - eleOffset sz eles index)) op' := by
  obtain ⟨d, hd, he, hc, hent⟩ := h.copy hsrc hlo (by omega) hun
  have hdi := h.dI_add
  have h0 : eleOffset sz eles 0 = 0 := eleOffset_zero eles
  have hsI : op.sI + (index - op.sI) + count = index + count := by omega
  refine ⟨⟨d, op.dI + (index - op.sI), op.sI + (index - op.sI) + count,
    op.delta - ((eleOffset sz eles (index + count) - eleOffset sz eles index : ℕ) : ℤ)⟩, ?_, hsI, ?_⟩
  · simp only [offidxOpRemoveRange, hsrc.getConst h0 (show index ≤ eles.length by omega), hd,
      Option.bind_eq_bind, Option.bind_some]
    split_ifs with hend
    · rw [hsrc.eleCount_eq] at hend
      rw [hsrc.contentSz_eq, hend]
    · rw [hsrc.getConst h0 hhi]
      rfl
  · refine ⟨?_, by dsimp only; omega, by dsimp only; rw [h.shift_eq]; omega,
      by rw [he, h.dest_eleCount], by rw [hc, h.dest_contentSz], hent⟩
    dsimp only
    rw [hsI]
    exact h.skipRange hlo hhi hun hm

theorem OffidxOpInv.finish (hsrc : src.IsFull eles.length (eleOffset sz eles)) {i rmSz : ℕ} {op : OffidxOp}
    (h : OffidxOpInv sz rmMask eles i rmSz op) (hall : (removedBefore rmMask eles eles.length).length = i) :
    ∃ d, offidxOpEnd src op = some d ∧
      d.IsFull (maskedEles rmMask false 0 eles).length (eleOffset sz (maskedEles rmMask false 0 eles)) := by
  have hun : ∀ j, op.sI ≤ j → j < eles.length → rmMask j = false :=
    unmarked_of_length_removedBefore rmMask eles le_rfl (by rw [hall, h.removed])
  obtain ⟨d, hd, he, hc, hent⟩ := h.copy hsrc h.idx_le le_rfl hun
  have hdi := h.dI_add
  have hkept := length_maskedEles_false rmMask eles
  have hkc : op.dI + (eles.length - op.sI) = (maskedEles rmMask false 0 eles).length := by
    have := h.le_idx
    have := h.idx_le
    omega
  have hcount : op.dI + (eles.length - op.sI) = d.eleCount := by rw [he, h.dest_eleCount, hkc]
  obtain ⟨d', hset, hfull⟩ := OffsetIndex.setFilled_isFull (d := d) (by rw [he, h.dest_eleCount])
    (by rw [hc, h.dest_contentSz]) (by rw [← hkc]; exact hent)
  refine ⟨d', ?_, hfull⟩
  simp only [offidxOpEnd, hsrc.eleCount_eq, hd, hcount, hset, Option.bind_eq_bind, Option.bind_some]

theorem packedMapRemoveIndexesLoop_spec (hsrc : src.IsFull eles.length (eleOffset sz eles))
    (hb : eles.length + 127 < 2 ^ 32) :
    ∀ (count i rmSz : ℕ) (op : OffidxOp), OffidxOpInv sz rmMask eles i rmSz op →
      i + count ≤ (removedBefore rmMask eles eles.length).length →
      ∃ rmSz' op', packedMapRemoveIndexesLoop src rmMask count op.sI op = some op' ∧
        OffidxOpInv sz rmMask eles (i + count) rmSz' op'
  | 0, i, rmSz, op, h, _ => ⟨rmSz, op, rfl, h⟩
  | count + 1, i, rmSz, op, h, hc => by
    obtain ⟨f, hfind, hf1, hf2, hm, hun⟩ :=
      cdtIdxMaskFind_next_removed hb h.idx_le (by rw [h.removed]; omega)
    obtain ⟨op', hrm, hsI, hinv⟩ := h.remove hsrc hb hf1 hf2 hm hun
    obtain ⟨rmSz', op'', hrun, hinv'⟩ := packedMapRemoveIndexesLoop_spec hsrc hb count (i + 1) _ op' hinv (by omega)
    refine ⟨rmSz', op'', ?_, by rw [show i + (count + 1) = i + 1 + count by omega]; exact hinv'⟩
    rw [← hsrc.eleCount_eq] at hfind
    rw [hsI] at hrun
    simp only [packedMapRemoveIndexesLoop, hfind, hrm, hrun, Option.bind_eq_bind, Option.bind_some]

theorem packedMapRemoveIndexesOffidx_isFull (hsrc : src.IsFull eles.length (eleOffset sz eles))
    (hb : eles.length + 127 < 2 ^ 32) {dest : OffsetIndex} {count : ℕ} (hrm : (removedBefore rmMask eles eles.length).length = count)
    (hd : dest.eleCount = (maskedEles rmMask false 0 eles).length)
    (hc : dest.contentSz = eleOffset sz (maskedEles rmMask false 0 eles) (maskedEles rmMask false 0 eles).length) :
    ∃ d, packedMapRemoveIndexesOffidx dest src rmMask count = some d ∧
      d.IsFull (maskedEles rmMask false 0 eles).length (eleOffset sz (maskedEles rmMask false 0 eles)) := by
  obtain ⟨rmSz, op, hrun, hinv⟩ :=
    packedMapRemoveIndexesLoop_spec hsrc hb count 0 0 (offidxOpInit dest) (offidxOpInv_init hd hc) (by omega)
  obtain ⟨d, hend, hfull⟩ := hinv.finish hsrc (by omega)
  have hrun' : packedMapRemoveIndexesLoop src rmMask count 0 (offidxOpInit dest) = some op := hrun
  exact ⟨d, by simp only [packedMapRemoveIndexesOffidx, hrun', hend, Option.bind_eq_bind, Option.bind_some], hfull⟩

def rangeMask (idx count : ℕ) (j : ℕ) : Bool := decide (idx ≤ j ∧ j < idx + count)

theorem packedMapRemoveIdxRangeOffidx_isFull (hsrc : src.IsFull eles.length (eleOffset sz eles))
    {dest : OffsetIndex} {idx count : ℕ} (hr : idx + count ≤ eles.length)
    (hd : dest.eleCount = (maskedEles (rangeMask idx count) false 0 eles).length)
    (hc : dest.contentSz = eleOffset sz (maskedEles (rangeMask idx count) false 0 eles)
      (maskedEles (rangeMask idx count) false 0 eles).length) :
    ∃ d, packedMapRemoveIdxRangeOffidx dest src idx count = some d ∧
      d.IsFull (maskedEles (rangeMask idx count) false 0 eles).length
        (eleOffset sz (maskedEles (rangeMask idx count) false 0 eles)) := by
  obtain ⟨op, hrm, hsI, hinv⟩ := (offidxOpInv_init hd hc : OffidxOpInv sz (rangeMask idx count) eles 0 0 _).removeRange
    hsrc (Nat.zero_le idx) hr (fun j _ hj => by simp [rangeMask]; omega) (fun j h1 h2 => by simp [rangeMask]; omega)
  have hafter := removedBefore_of_unmarked (rangeMask idx count) eles (by omega : idx + count ≤ eles.length) le_rfl
    fun j h1 _ => by simp [rangeMask]; omega
  obtain ⟨d, hend, hfull⟩ := hinv.finish hsrc (by rw [hafter, ← hsI, hinv.removed])
  exact ⟨d, by simp only [packedMapRemoveIdxRangeOffidx, hrm, hend, Option.bind_eq_bind, Option.bind_some], hfull⟩

end OffidxOpRun

/-- The new offset index after a removal is exact. From the full index of a
list or map, `list_offset_index_rm_mask_cpy` without the `rmCount ≥ 1` marked
elements leaves a well-formed index of the kept elements (full, or partial with
an entry per 128 elements) with every entry known; the map's `offidx_op` runs of
`packed_map_remove_indexes` and `packed_map_remove_idx_range` leave the full
index of the kept elements, filled to their count. -/
theorem offset_index_after_removal (sz : α → ℕ) (eles : List α) (fullSrc dst : OffsetIndex) (rmMask : ℕ → Bool)
    (rmCount : ℕ) (isPartial : Bool) (idx count : ℕ) (hsrc : fullSrc.IsFull eles.length (eleOffset sz eles))
    (hb : eles.length + 127 < 2 ^ 32) :
    (rmCount = (maskedEles rmMask true 0 eles).length → 0 < rmCount →
      dst.contentSz = eleOffset sz (maskedEles rmMask false 0 eles) (maskedEles rmMask false 0 eles).length →
      dst.eleCount = (if isPartial then listPartialEleCount (maskedEles rmMask false 0 eles).length
        else (maskedEles rmMask false 0 eles).length) →
      ∃ d, listOffsetIndexRmMaskCpy dst fullSrc isPartial rmMask rmCount = some d ∧
        PackedList.IndexValid sz ⟨!isPartial, maskedEles rmMask false 0 eles, some d⟩ ∧ d.filled = d.eleCount) ∧
    (rmCount = (maskedEles rmMask true 0 eles).length →
      dst.eleCount = (maskedEles rmMask false 0 eles).length →
      dst.contentSz = eleOffset sz (maskedEles rmMask false 0 eles) (maskedEles rmMask false 0 eles).length →
      ∃ d, packedMapRemoveIndexesOffidx dst fullSrc rmMask rmCount = some d ∧
        d.IsFull (maskedEles rmMask false 0 eles).length (eleOffset sz (maskedEles rmMask false 0 eles))) ∧
    (idx + count ≤ eles.length →
      dst.eleCount = (maskedEles (rangeMask idx count) false 0 eles).length →
      dst.contentSz = eleOffset sz (maskedEles (rangeMask idx count) false 0 eles)
        (maskedEles (rangeMask idx count) false 0 eles).length →
      ∃ d, packedMapRemoveIdxRangeOffidx dst fullSrc idx count = some d ∧
        d.IsFull (maskedEles (rangeMask idx count) false 0 eles).length
          (eleOffset sz (maskedEles (rangeMask idx count) false 0 eles))) := by
  have hR : removedBefore rmMask eles eles.length = maskedEles rmMask true 0 eles := by
    rw [removedBefore, List.take_length]
  have hkept := length_maskedEles_false rmMask eles
  rw [hR] at hkept
  refine ⟨fun hrm hpos hc hd => ?_, fun hrm hd hc => packedMapRemoveIndexesOffidx_isFull hsrc hb (by rw [hR, hrm]) hd hc,
    fun hr hd hc => packedMapRemoveIdxRangeOffidx_isFull hsrc hr hd hc⟩
  cases isPartial
  · obtain ⟨d, hrun, hfull⟩ := listOffsetIndexRmMaskCpy_full hsrc hb (by rw [hR, hrm]) hpos
      (by rw [hd, if_neg Bool.false_ne_true, hkept, hrm]) (by rw [hc, hkept, hrm])
    rw [hrm, ← hkept] at hfull
    refine ⟨d, hrun, fun o ho => ?_, by rw [hfull.filled_eq, hfull.eleCount_eq]⟩
    cases ho
    exact ⟨hfull.contentSz_eq, hfull.eleCount_eq, hfull.valid⟩
  · obtain ⟨d, hrun, he, hcs, hfl, hvalid⟩ := listOffsetIndexRmMaskCpy_partial hsrc hb (by rw [hR, hrm]) hpos
      (by rw [hd, if_pos rfl, hkept, hrm])
    refine ⟨d, hrun, fun o ho => ?_, hfl⟩
    cases ho
    exact ⟨by rw [hcs, hc], by rw [he, hd, if_pos rfl]; rfl, hvalid⟩

section WrapNearTop

variable {sz : α → ℕ} {eles : List α} {fullSrc : OffsetIndex}

end WrapNearTop

end Aerospike.Cdt
