import Aerospike.Cdt.Mask
import Aerospike.Lib.Fields

/-! # Keeping a map's value index up to date

A map's value index (`order_index`) lists its element indexes by value. A
write does not sort it again: `order_index_op_add` inserts the new element's
index at its rank and moves up the indexes above it, `order_index_op_replace1`
moves one entry to a new rank, and `order_index_op_remove_idx_mask` drops the
removed elements and renumbers the rest, counting the removed indexes below
each survivor from per-word prefix sums of `cf_bit_count64`. Each is a sequence
of `order_index_copy` calls and single writes into a fresh index.

The entries are modelled as naturals (the index's byte width holds every value
up to its `max_idx`), the index as the list of its entries, and each operation
as the writes it makes into the destination list. Each is shown to give the
index it is meant to: an insertion, a move, or the filtered and renumbered
index; the rebuild of `packed_map_remove_idx_range` is the last for a run of
indexes.
-/

namespace Aerospike.Cdt

open Fields

/-! ### The bit count of a word -/

/-- `cf_bit_count64` (`bits.h`): the number of set bits of a word, counted by
pairs, nibbles and bytes, then summed into the top byte by a multiplication. -/
def cfBitCount64 (x : UInt64) : UInt32 :=
  let x : UInt64 := x - ((x >>> 1) &&& 0x5555555555555555)
  let x : UInt64 := (x &&& (0x3333333333333333 : UInt64)) + ((x >>> 2) &&& 0x3333333333333333)
  let x : UInt64 := (x + (x >>> 4)) &&& 0x0F0F0F0F0F0F0F0F
  ((x * 0x0101010101010101) >>> 56).toUInt32

theorem cfBitCount64_toNat (x : UInt64) :
    (cfBitCount64 x).toNat = (List.range 64).countP x.toNat.testBit := by
  have hx := x.toNat_lt
  simp only [cfBitCount64, UInt64.toNat_toUInt32]
  have hle : (x >>> 1) &&& (0x5555555555555555 : UInt64) ≤ x := by
    rw [UInt64.le_iff_toNat_le, UInt64.toNat_and, UInt64.toNat_shiftRight]
    exact Nat.and_le_left.trans (Nat.shiftRight_le _ _)
  have h1 : (x - ((x >>> 1) &&& (0x5555555555555555 : UInt64))).toNat = packFields 2 32 (pairCount x.toNat) := by
    rw [UInt64.toNat_sub_of_le _ _ hle, UInt64.toNat_and, UInt64.toNat_shiftRight]
    exact sub_shiftRight_one_and hx
  generalize x - ((x >>> 1) &&& (0x5555555555555555 : UInt64)) = y at h1 ⊢
  have h2 : ((y &&& (0x3333333333333333 : UInt64)) + ((y >>> 2) &&& (0x3333333333333333 : UInt64))).toNat =
      packFields 4 16 (nibbleCount x.toNat) := by
    rw [UInt64.toNat_add, UInt64.toNat_and, UInt64.toNat_and, UInt64.toNat_shiftRight, h1]
    rw [show (2 : UInt64).toNat % 64 = 2 from rfl, show (0x3333333333333333 : UInt64).toNat =
      0x3333333333333333 from rfl, and_add_shiftRight_two_and hx]
    exact Nat.mod_eq_of_lt (packFields_lt fun i _ =>
      Nat.lt_of_le_of_lt (nibbleCount_le _ i) (by decide))
  generalize (y &&& (0x3333333333333333 : UInt64)) + ((y >>> 2) &&& (0x3333333333333333 : UInt64)) = z at h2
  have h3 : ((z + (z >>> 4)) &&& (0x0F0F0F0F0F0F0F0F : UInt64)).toNat = packFields 8 8 (byteCount x.toNat) := by
    rw [UInt64.toNat_and, UInt64.toNat_add, UInt64.toNat_shiftRight, h2,
      show (4 : UInt64).toNat % 64 = 4 from rfl, Nat.mod_eq_of_lt (add_shiftRight_four_lt hx)]
    exact add_shiftRight_four_and hx
  generalize (z + (z >>> 4)) &&& (0x0F0F0F0F0F0F0F0F : UInt64) = u at h3 ⊢
  have htop : ((u * (0x0101010101010101 : UInt64)) >>> (56 : UInt64)).toNat = (List.range 64).countP x.toNat.testBit := by
    rw [UInt64.toNat_shiftRight, UInt64.toNat_mul, h3, show (56 : UInt64).toNat % 64 = 56 from rfl,
      Nat.shiftRight_eq_div_pow, show (0x0101010101010101 : UInt64).toNat = 0x0101010101010101 from rfl,
      mul_ones_top_byte (byteCount_le _), sumFields_byteCount]
  rw [htop]
  exact Nat.mod_eq_of_lt (Nat.lt_of_le_of_lt (List.countP_le_length.trans_eq List.length_range) (by decide))

theorem cfBitCount64_and_lowMask (w : UInt64) {o : ℕ} (ho : o < 64) :
    (cfBitCount64 (w &&& ((1 : UInt64) <<< o.toUInt64 - 1))).toNat = (List.range o).countP w.toNat.testBit := by
  have hsplit : List.range 64 = List.range o ++ (List.range (64 - o)).map (o + ·) := by
    rw [← List.range_add, Nat.add_sub_cancel' (Nat.le_of_lt ho)]
  rw [cfBitCount64_toNat, hsplit, List.countP_append, List.countP_map]
  have hlow : (List.range o).countP (w &&& ((1 : UInt64) <<< o.toUInt64 - 1)).toNat.testBit =
      (List.range o).countP w.toNat.testBit := by
    refine List.countP_congr fun i hi => ?_
    rw [UInt64.toNat_and, Nat.testBit_and, Word.testBit_lowMask ho, decide_eq_true (List.mem_range.mp hi),
      Bool.and_true]
  have hhigh : (List.range (64 - o)).countP
      ((w &&& ((1 : UInt64) <<< o.toUInt64 - 1)).toNat.testBit ∘ (o + ·)) = 0 := by
    refine List.countP_eq_zero.mpr fun i _ => ?_
    simp [UInt64.toNat_and, Nat.testBit_and, Word.testBit_lowMask ho]
  rw [hlow, hhigh, Nat.add_zero]

/-! ### Masks of removed indexes -/

/-- `cdt_idx_mask_is_set`: `(mask[idx / 64] & (1ULL << (idx % 64))) != 0`. -/
def cdtIdxMaskIsSet (mask : ℕ → UInt64) (idx : ℕ) : Bool :=
  (mask (idx / 64) &&& (1 : UInt64) <<< (idx % 64).toUInt64) != 0

theorem cdtIdxMaskIsSet_eq (mask : ℕ → UInt64) (idx : ℕ) : cdtIdxMaskIsSet mask idx = wordBit mask idx := by
  have hword : (mask (idx / 64) &&& (1 : UInt64) <<< (idx % 64).toUInt64).toNat =
      (mask (idx / 64)).toNat &&& 2 ^ (idx % 64) := by
    rw [UInt64.toNat_and, Word.toNat_one_shiftLeft (Nat.mod_lt _ (by decide))]
  unfold cdtIdxMaskIsSet wordBit
  cases hb : (mask (idx / 64)).toNat.testBit (idx % 64)
  · have hz : (mask (idx / 64)).toNat &&& 2 ^ (idx % 64) = 0 := Nat.eq_of_testBit_eq fun j => by
      rw [Nat.testBit_and, Nat.testBit_two_pow, Nat.zero_testBit]
      by_cases hj : idx % 64 = j
      · subst hj; simp [hb]
      · simp [hj]
    simp [← UInt64.toNat_inj, hword, hz]
  · have hne : (mask (idx / 64)).toNat &&& 2 ^ (idx % 64) ≠ 0 := fun h => by
      have := congrArg (Nat.testBit · (idx % 64)) h
      simp [Nat.testBit_and, hb] at this
    simp [← UInt64.toNat_inj, hword, hne]

/-- The number of marked indexes below `j`. -/
def maskedBelow (mask : ℕ → UInt64) (j : ℕ) : ℕ := (List.range j).countP (wordBit mask)

theorem maskedBelow_word (mask : ℕ → UInt64) (q : ℕ) {o : ℕ} (ho : o ≤ 64) :
    maskedBelow mask (64 * q + o) = maskedBelow mask (64 * q) + (List.range o).countP (mask q).toNat.testBit := by
  rw [maskedBelow, maskedBelow, List.range_add, List.countP_append, List.countP_map]
  congr 1
  refine List.countP_congr fun i hi => ?_
  have hi' := List.mem_range.mp hi
  simp only [Function.comp_apply, wordBit]
  rw [show (64 * q + i) / 64 = q by omega, show (64 * q + i) % 64 = i by omega]

/-- `cntidx` of `order_index_op_remove_idx_mask`: entry `i` is the number of
set bits in the words up to `i`, each added to the one before. -/
def maskPrefixCounts (mask : ℕ → UInt64) : ℕ → ℕ
  | 0 => (cfBitCount64 (mask 0)).toNat
  | i + 1 => maskPrefixCounts mask i + (cfBitCount64 (mask (i + 1))).toNat

theorem maskPrefixCounts_eq (mask : ℕ → UInt64) (i : ℕ) :
    maskPrefixCounts mask i = maskedBelow mask (64 * (i + 1)) := by
  induction i with
  | zero =>
    rw [maskPrefixCounts, cfBitCount64_toNat, show 64 * (0 + 1) = 64 * 0 + 64 from rfl,
      maskedBelow_word mask 0 (Nat.le_refl 64), Nat.mul_zero, maskedBelow, List.range_zero, List.countP_nil,
      Nat.zero_add]
  | succ i ih =>
    rw [maskPrefixCounts, ih, cfBitCount64_toNat, show 64 * (i + 1 + 1) = 64 * (i + 1) + 64 by omega,
      maskedBelow_word mask (i + 1) (Nat.le_refl 64)]

/-! ### The operations -/

/-- `order_index_adjust_value`: the adjustment's function applied to an entry,
or the entry itself without one. -/
def orderIndexAdjustValue (adjust : Option (ℕ → ℕ)) (src : ℕ) : ℕ := adjust.elim src (· src)

/-- `order_index_adjust_lower`: entries from `lower` on are moved by `delta`. -/
def orderIndexAdjustLower (lower delta src : ℕ) : ℕ := if src ≥ lower then src + delta else src

/-- `order_index_copy`: the `count` entries of `src` from `sStart`, adjusted,
written to `dest` from `dStart`, first to last (the `memcpy` of the unadjusted
case writes the same entries). -/
def orderIndexCopy (dest src : List ℕ) (dStart sStart : ℕ) (adjust : Option (ℕ → ℕ)) : ℕ → List ℕ
  | 0 => dest
  | count + 1 =>
    orderIndexCopy (dest.set dStart (orderIndexAdjustValue adjust (src.getD sStart 0))) src (dStart + 1)
      (sStart + 1) adjust count

/-- `order_index_op_add`: the new element's index `addIdx` written at `addRank`,
the other entries copied around it with the indexes from `addIdx` on moved up;
`none` is the assertion `add_rank <= ele_count`. -/
def orderIndexOpAdd (dest src : List ℕ) (addIdx addRank : ℕ) : Option (List ℕ) :=
  let eleCount := src.length
  let adjust := some (orderIndexAdjustLower addIdx 1)
  if addRank ≤ eleCount then
    let dest := orderIndexCopy dest src 0 0 adjust addRank
    let dest := dest.set addRank addIdx
    some (orderIndexCopy dest src (addRank + 1) addRank adjust (eleCount - addRank))
  else none

/-- `order_index_op_replace1_internal`: the entry at `removeRank` dropped and
`addIdx` written where rank `addRank` lands once it is gone. -/
def orderIndexOpReplace1Internal (dest src : List ℕ) (addIdx addRank removeRank : ℕ)
    (adjust : Option (ℕ → ℕ)) : List ℕ :=
  let eleCount := src.length
  if addRank = removeRank then orderIndexCopy dest src 0 0 none eleCount
  else if addRank > removeRank then
    let dest := orderIndexCopy dest src 0 0 adjust removeRank
    let dest := orderIndexCopy dest src removeRank (removeRank + 1) adjust (addRank - removeRank - 1)
    let dest := dest.set (addRank - 1) addIdx
    orderIndexCopy dest src addRank addRank adjust (eleCount - addRank)
  else
    let dest := orderIndexCopy dest src 0 0 adjust addRank
    let dest := dest.set addRank addIdx
    let dest := orderIndexCopy dest src (addRank + 1) addRank adjust (removeRank - addRank)
    orderIndexCopy dest src (removeRank + 1) (removeRank + 1) adjust (eleCount - removeRank - 1)

/-- `order_index_op_replace1`: the entry at `removeRank` moved to `addRank`. -/
def orderIndexOpReplace1 (dest src : List ℕ) (addRank removeRank : ℕ) : List ℕ :=
  orderIndexOpReplace1Internal dest src (src.getD removeRank 0) addRank removeRank none

/-- What `order_index_op_remove_idx_mask` writes for an entry `idx`: nothing for
an index out of range or marked, else the index less the marked ones below it,
from the bits below it in its word and `cntidx` of the words before. -/
def removeIdxMaskEntry (mask : ℕ → UInt64) (eleCount idx : ℕ) : Option ℕ :=
  if idx ≥ eleCount ∨ cdtIdxMaskIsSet mask idx then none
  else
    let maskI := idx / 64
    let offset := idx % 64
    let bits := mask maskI &&& ((1 : UInt64) <<< offset.toUInt64 - 1)
    if maskI = 0 then some (idx - (cfBitCount64 bits).toNat)
    else some (idx - ((cfBitCount64 bits).toNat + maskPrefixCounts mask (maskI - 1)))

/-- The loop shared by the rebuilds of a value index: each entry of the source
dropped or written, renumbered, at the next free slot `di` of `dest`. -/
def writeKeptLoop (entry : ℕ → Option ℕ) : List ℕ → List ℕ → ℕ → List ℕ × ℕ
  | dest, [], di => (dest, di)
  | dest, idx :: rest, di =>
    match entry idx with
    | none => writeKeptLoop entry dest rest di
    | some v => writeKeptLoop entry (dest.set di v) rest (di + 1)

/-- `order_index_op_remove_idx_mask`: nothing for `count = 0`; else the kept
entries, renumbered, written over `dest`; `none` is the assertion that they
fill it. -/
def orderIndexOpRemoveIdxMask (dest src : List ℕ) (mask : ℕ → UInt64) (count : ℕ) : Option (List ℕ) :=
  if count = 0 then some dest
  else
    let r := writeKeptLoop (removeIdxMaskEntry mask src.length) dest src 0
    if dest.length = r.2 then some r.1 else none

/-- What the value index rebuild of `packed_map_remove_idx_range` writes for an
entry `idx0`: nothing inside `[idx, idxEnd)`, the entry moved down by `count`
from `idxEnd` on. -/
def removeIdxRangeEntry (idx idxEnd count idx0 : ℕ) : Option ℕ :=
  if idx0 ≥ idx ∧ idx0 < idxEnd then none
  else some (if idx0 ≥ idxEnd then idx0 - count else idx0)

/-- The value index of `packed_map_remove_idx_range` after removing the
`count` elements from `idx`, written over `dest`. -/
def removeIdxRangeValueIdx (dest src : List ℕ) (idx count : ℕ) : List ℕ :=
  (writeKeptLoop (removeIdxRangeEntry idx (idx + count) count) dest src 0).1

/-! ### What the operations are for -/

/-- An index with the marked entries dropped and each kept one renumbered
below the marked ones. -/
def removeMarked (marked : ℕ → Bool) (n : ℕ) (p : List ℕ) : List ℕ :=
  p.filterMap fun j => if j < n ∧ marked j = false then some (j - (List.range j).countP marked) else none

/-! ### The copies -/

section Copy

theorem insertIdx_eq_take_cons_drop {α : Type} (x : α) :
    ∀ (l : List α) (i : ℕ), i ≤ l.length → l.insertIdx i x = l.take i ++ x :: l.drop i
  | _, 0, _ => by rw [List.insertIdx_zero, List.take_zero, List.drop_zero, List.nil_append]
  | [], _ + 1, h => absurd h (by simp)
  | a :: l, i + 1, h => by
    rw [List.insertIdx_succ_cons, insertIdx_eq_take_cons_drop x l i (by simpa using h)]
    rfl

theorem exists_blocks (l : List ℕ) {d c : ℕ} (h : d + c ≤ l.length) :
    ∃ pre mid post, l = pre ++ mid ++ post ∧ pre.length = d ∧ mid.length = c :=
  ⟨l.take d, (l.drop d).take c, (l.drop d).drop c, by simp,
    by simp; omega, by simp; omega⟩

theorem orderIndexCopy_blocks (src : List ℕ) (adjust : Option (ℕ → ℕ)) :
    ∀ (count : ℕ) (pre mid post : List ℕ) (sStart : ℕ), mid.length = count → sStart + count ≤ src.length →
      orderIndexCopy (pre ++ mid ++ post) src pre.length sStart adjust count =
        pre ++ ((src.drop sStart).take count).map (orderIndexAdjustValue adjust) ++ post
  | 0, pre, mid, post, _, hmid, _ => by
    rw [List.length_eq_zero_iff.mp hmid]
    rfl
  | count + 1, pre, m :: mid, post, sStart, hmid, hs => by
    have hss : sStart < src.length := by omega
    have hset : (pre ++ m :: mid ++ post).set pre.length (orderIndexAdjustValue adjust (src.getD sStart 0)) =
        (pre ++ [orderIndexAdjustValue adjust src[sStart]]) ++ mid ++ post := by
      simp [List.getElem?_eq_getElem hss]
    rw [orderIndexCopy, hset, show pre.length + 1 = (pre ++ [orderIndexAdjustValue adjust src[sStart]]).length by simp,
      orderIndexCopy_blocks src adjust count _ mid post (sStart + 1) (by simpa using hmid) (by omega),
      List.drop_eq_getElem_cons hss, List.take_succ_cons, List.map_cons]
    simp only [List.append_assoc, List.cons_append, List.nil_append]

theorem set_blocks (pre post : List ℕ) (m v : ℕ) {i : ℕ} (hi : pre.length = i) :
    (pre ++ m :: post).set i v = pre ++ v :: post := by
  subst hi
  simp

@[simp] theorem orderIndexAdjustValue_some (f : ℕ → ℕ) : orderIndexAdjustValue (some f) = f := rfl

@[simp] theorem orderIndexAdjustValue_none : orderIndexAdjustValue none = id := rfl

end Copy

/-! ### Adding an element -/

theorem orderIndexOpAdd_eq {dest src : List ℕ} (addIdx : ℕ) {addRank : ℕ}
    (hd : dest.length = src.length + 1) (hr : addRank ≤ src.length) :
    orderIndexOpAdd dest src addIdx addRank =
      some ((src.map (orderIndexAdjustLower addIdx 1)).insertIdx addRank addIdx) := by
  obtain ⟨pre, mid, post, rfl, hpre, hmid⟩ := exists_blocks dest (show 0 + addRank ≤ dest.length by omega)
  obtain rfl : pre = [] := List.length_eq_zero_iff.mp hpre
  obtain ⟨x, rest, rfl⟩ : ∃ x rest, post = x :: rest :=
    List.exists_cons_of_ne_nil (List.ne_nil_of_length_pos (by simp at hd; omega))
  have hrest : rest.length = src.length - addRank := by simp at hd; omega
  have hfirst : orderIndexCopy ([] ++ mid ++ x :: rest) src 0 0 (some (orderIndexAdjustLower addIdx 1)) addRank =
      (src.take addRank).map (orderIndexAdjustLower addIdx 1) ++ x :: rest := by
    simpa using orderIndexCopy_blocks src (some (orderIndexAdjustLower addIdx 1)) addRank [] mid (x :: rest) 0
      hmid (by omega)
  have hsecond : orderIndexCopy ((src.take addRank).map (orderIndexAdjustLower addIdx 1) ++ addIdx :: rest) src
      (addRank + 1) addRank (some (orderIndexAdjustLower addIdx 1)) (src.length - addRank) =
      (src.take addRank).map (orderIndexAdjustLower addIdx 1) ++
        addIdx :: (src.drop addRank).map (orderIndexAdjustLower addIdx 1) := by
    have h := orderIndexCopy_blocks src (some (orderIndexAdjustLower addIdx 1)) (src.length - addRank)
      ((src.take addRank).map (orderIndexAdjustLower addIdx 1) ++ [addIdx]) rest [] addRank hrest (by omega)
    simp only [List.length_append, List.length_map, List.length_take, List.length_singleton,
      Nat.min_eq_left hr, List.append_nil, List.take_of_length_le (by simp : (src.drop addRank).length ≤
        src.length - addRank), orderIndexAdjustValue_some, List.append_assoc, List.singleton_append] at h
    exact h
  rw [orderIndexOpAdd, if_pos hr]
  dsimp only
  rw [hfirst, set_blocks _ _ _ _ (by simp; omega), hsecond,
    insertIdx_eq_take_cons_drop _ _ _ (by simp; omega), List.map_take, List.map_drop]

example : orderIndexOpAdd [7, 7, 7] [1, 0] 1 1 = some [2, 1, 0] := by decide

/-! ### Moving an entry -/

section Move

variable {α : Type} (l : List α) {removeRank addRank : ℕ} (x : α)

theorem insertIdx_eraseIdx_of_lt (hlt : removeRank < addRank) (hadd : addRank ≤ l.length) :
    (l.eraseIdx removeRank).insertIdx (addRank - 1) x =
      l.take removeRank ++ (l.drop (removeRank + 1)).take (addRank - removeRank - 1) ++ x :: l.drop addRank := by
  rw [insertIdx_eq_take_cons_drop _ _ _ (by rw [List.length_eraseIdx_of_lt (by omega)]; omega),
    List.eraseIdx_eq_take_drop_succ, List.take_append, List.drop_append, List.length_take_of_le (by omega),
    List.take_take, List.drop_eq_nil_of_le (show (l.take removeRank).length ≤ addRank - 1 by simp; omega),
    List.drop_drop, Nat.min_eq_right (by omega), show removeRank + 1 + (addRank - 1 - removeRank) = addRank by omega,
    show addRank - 1 - removeRank = addRank - removeRank - 1 by omega]
  simp

theorem insertIdx_eraseIdx_of_gt (hgt : addRank < removeRank) (hrm : removeRank < l.length) :
    (l.eraseIdx removeRank).insertIdx addRank x =
      l.take addRank ++ x :: (l.drop addRank).take (removeRank - addRank) ++ l.drop (removeRank + 1) := by
  rw [insertIdx_eq_take_cons_drop _ _ _ (by rw [List.length_eraseIdx_of_lt (by omega)]; omega),
    List.eraseIdx_eq_take_drop_succ, List.take_append_of_le_length (by simp; omega),
    List.drop_append_of_le_length (by simp; omega), List.take_take, Nat.min_eq_left (by omega), List.drop_take]
  simp

end Move

theorem orderIndexOpReplace1_eq {dest src : List ℕ} {addRank removeRank : ℕ}
    (hd : dest.length = src.length) (hrm : removeRank < src.length) (hadd : addRank ≤ src.length) :
    orderIndexOpReplace1 dest src addRank removeRank =
      (src.eraseIdx removeRank).insertIdx (if removeRank < addRank then addRank - 1 else addRank) src[removeRank] := by
  rw [orderIndexOpReplace1, orderIndexOpReplace1Internal, List.getD_eq_getElem?_getD, List.getElem?_eq_getElem hrm,
    Option.getD_some]
  dsimp only
  rcases Nat.lt_trichotomy addRank removeRank with hlt | rfl | hgt
  · rw [if_neg (Nat.ne_of_lt hlt), if_neg (Nat.not_lt_of_gt hlt), if_neg (Nat.not_lt_of_gt hlt),
      insertIdx_eraseIdx_of_gt src _ hlt hrm]
    obtain ⟨A, M, D, rfl, hA, hM⟩ := exists_blocks dest (show addRank + (removeRank - addRank + 1) ≤ dest.length by omega)
    obtain ⟨c, B, rfl⟩ : ∃ c B, M = c :: B := List.exists_cons_of_ne_nil (List.ne_nil_of_length_pos (by omega))
    have hB : B.length = removeRank - addRank := by simp at hM; omega
    have hD : D.length = src.length - removeRank - 1 := by simp at hd; omega
    have h1 : orderIndexCopy (A ++ c :: B ++ D) src 0 0 none addRank = src.take addRank ++ c :: B ++ D := by
      simpa using orderIndexCopy_blocks src none addRank [] A (c :: B ++ D) 0 hA (by omega)
    have h3 : orderIndexCopy (src.take addRank ++ src[removeRank] :: (B ++ D)) src (addRank + 1) addRank none
        (removeRank - addRank) =
        src.take addRank ++ src[removeRank] :: (src.drop addRank).take (removeRank - addRank) ++ D := by
      simpa [Nat.min_eq_left (Nat.le_of_lt (Nat.lt_trans hlt hrm))] using orderIndexCopy_blocks src none
        (removeRank - addRank) (src.take addRank ++ [src[removeRank]]) B D addRank hB (by omega)
    have h4 : orderIndexCopy (src.take addRank ++ src[removeRank] :: (src.drop addRank).take (removeRank - addRank) ++ D)
        src (removeRank + 1) (removeRank + 1) none (src.length - removeRank - 1) =
        src.take addRank ++ src[removeRank] :: (src.drop addRank).take (removeRank - addRank) ++
          src.drop (removeRank + 1) := by
      have h := orderIndexCopy_blocks src none (src.length - removeRank - 1)
        (src.take addRank ++ src[removeRank] :: (src.drop addRank).take (removeRank - addRank)) D []
        (removeRank + 1) hD (by omega)
      simp only [List.length_append, List.length_take, List.length_cons, List.length_drop,
        orderIndexAdjustValue_none, List.map_id, List.append_nil] at h
      rw [Nat.min_eq_left (by omega), Nat.min_eq_left (by omega), show addRank + (removeRank - addRank + 1) =
        removeRank + 1 by omega, List.take_of_length_le (show (src.drop (removeRank + 1)).length ≤
          src.length - removeRank - 1 by simp; omega)] at h
      simpa using h
    rw [h1, List.append_assoc, List.cons_append, set_blocks _ _ _ _ (by simp; omega), h3, h4]
  · rw [if_pos rfl, if_neg (Nat.lt_irrefl _), List.insertIdx_eraseIdx_getElem hrm]
    obtain ⟨pre, mid, post, rfl, hpre, hmid⟩ := exists_blocks dest (show 0 + src.length ≤ dest.length by omega)
    obtain rfl : pre = [] := List.length_eq_zero_iff.mp hpre
    obtain rfl : post = [] := List.length_eq_zero_iff.mp (by simp at hd; omega)
    simpa using orderIndexCopy_blocks src none src.length [] mid [] 0 hmid (by omega)
  · rw [if_neg (Nat.ne_of_gt hgt), if_pos hgt, if_pos hgt, insertIdx_eraseIdx_of_lt src _ hgt hadd]
    obtain ⟨A, B, post, rfl, hA, hB⟩ :=
      exists_blocks dest (show removeRank + (addRank - removeRank - 1) ≤ dest.length by omega)
    obtain ⟨c, D, rfl⟩ : ∃ c D, post = c :: D :=
      List.exists_cons_of_ne_nil (List.ne_nil_of_length_pos (by simp at hd; omega))
    have hD : D.length = src.length - addRank := by simp at hd; omega
    have h1 : orderIndexCopy (A ++ B ++ c :: D) src 0 0 none removeRank = src.take removeRank ++ B ++ c :: D := by
      simpa using orderIndexCopy_blocks src none removeRank [] A (B ++ c :: D) 0 hA (by omega)
    have h2 : orderIndexCopy (src.take removeRank ++ B ++ c :: D) src removeRank (removeRank + 1) none
        (addRank - removeRank - 1) =
        src.take removeRank ++ (src.drop (removeRank + 1)).take (addRank - removeRank - 1) ++ c :: D := by
      simpa [Nat.min_eq_left (Nat.le_of_lt hrm)] using orderIndexCopy_blocks src none (addRank - removeRank - 1)
        (src.take removeRank) B (c :: D) (removeRank + 1) hB (by omega)
    have h3 : orderIndexCopy (src.take removeRank ++ (src.drop (removeRank + 1)).take (addRank - removeRank - 1) ++
        src[removeRank] :: D) src addRank addRank none (src.length - addRank) =
        src.take removeRank ++ (src.drop (removeRank + 1)).take (addRank - removeRank - 1) ++
          src[removeRank] :: src.drop addRank := by
      have h := orderIndexCopy_blocks src none (src.length - addRank)
        (src.take removeRank ++ (src.drop (removeRank + 1)).take (addRank - removeRank - 1) ++ [src[removeRank]])
        D [] addRank hD (by omega)
      simp only [List.length_append, List.length_take, List.length_singleton, List.length_drop,
        orderIndexAdjustValue_none, List.map_id, List.append_nil] at h
      rw [Nat.min_eq_left (by omega), Nat.min_eq_left (by omega), show removeRank + (addRank - removeRank - 1) + 1 =
        addRank by omega, List.take_of_length_le (show (src.drop addRank).length ≤ src.length - addRank by simp)] at h
      simpa using h
    rw [h1, h2, set_blocks _ _ _ _ (by simp; omega), h3]

/-! ### Removing elements -/

theorem writeKeptLoop_blocks (entry : ℕ → Option ℕ) :
    ∀ (p pre mid post : List ℕ) (di : ℕ), pre.length = di → mid.length = (p.filterMap entry).length →
      writeKeptLoop entry (pre ++ mid ++ post) p di =
        (pre ++ p.filterMap entry ++ post, di + (p.filterMap entry).length)
  | [], pre, mid, post, di, _, hmid => by
    rw [List.filterMap_nil, List.length_eq_zero_iff.mp hmid]
    rfl
  | idx :: p, pre, mid, post, di, hpre, hmid => by
    cases he : entry idx with
    | none =>
      rw [List.filterMap_cons_none he] at hmid ⊢
      rw [writeKeptLoop, he]
      exact writeKeptLoop_blocks entry p pre mid post di hpre hmid
    | some v =>
      rw [List.filterMap_cons_some he] at hmid ⊢
      obtain ⟨m, mid, rfl⟩ : ∃ m rest, mid = m :: rest :=
        List.exists_cons_of_ne_nil (List.ne_nil_of_length_pos (by simp at hmid; omega))
      have hset : (pre ++ m :: mid ++ post).set di v = (pre ++ [v]) ++ mid ++ post := by
        rw [List.append_assoc, List.cons_append, set_blocks _ _ _ _ hpre]
        simp
      rw [writeKeptLoop, he]
      dsimp only
      rw [hset, writeKeptLoop_blocks entry p (pre ++ [v]) mid post (di + 1) (by simp; omega)
        (by simpa using hmid)]
      simp only [List.append_assoc, List.cons_append, List.nil_append, List.length_cons, Prod.mk.injEq,
        true_and]
      omega

theorem removeIdxMaskEntry_eq (mask : ℕ → UInt64) (n idx : ℕ) :
    removeIdxMaskEntry mask n idx =
      if idx < n ∧ wordBit mask idx = false then some (idx - maskedBelow mask idx) else none := by
  have ho : idx % 64 < 64 := Nat.mod_lt _ (by decide)
  have hsplit := maskedBelow_word mask (idx / 64) (Nat.le_of_lt ho)
  rw [Nat.div_add_mod] at hsplit
  rw [removeIdxMaskEntry, cdtIdxMaskIsSet_eq]
  by_cases hkept : idx < n ∧ wordBit mask idx = false
  · rw [if_neg (by rw [hkept.2]; simp [hkept.1]), if_pos hkept]
    dsimp only
    rw [cfBitCount64_and_lowMask _ ho]
    split_ifs with hq
    · rw [hsplit, hq, Nat.mul_zero, maskedBelow, List.range_zero, List.countP_nil, Nat.zero_add]
    · rw [maskPrefixCounts_eq, Nat.sub_add_cancel (Nat.one_le_iff_ne_zero.mpr hq), hsplit, Nat.add_comm]
  · rw [if_neg hkept, if_pos]
    by_cases hn : idx < n
    · exact .inr (by simpa [hn] using hkept)
    · exact .inl (by omega)

theorem orderIndexOpRemoveIdxMask_eq {dest src : List ℕ} (mask : ℕ → UInt64) {count : ℕ} (hcount : count ≠ 0)
    (hd : dest.length = (removeMarked (wordBit mask) src.length src).length) :
    orderIndexOpRemoveIdxMask dest src mask count = some (removeMarked (wordBit mask) src.length src) := by
  have hentry : src.filterMap (removeIdxMaskEntry mask src.length) = removeMarked (wordBit mask) src.length src := by
    rw [removeMarked]
    exact List.filterMap_congr fun j _ => removeIdxMaskEntry_eq mask src.length j
  have hloop := writeKeptLoop_blocks (removeIdxMaskEntry mask src.length) src [] dest [] 0 rfl (by rw [hentry, hd])
  simp only [List.nil_append, List.append_nil, Nat.zero_add, hentry] at hloop
  rw [orderIndexOpRemoveIdxMask, if_neg hcount]
  dsimp only
  rw [hloop, if_pos hd]

example : orderIndexOpRemoveIdxMask [7, 7] [2, 1, 0] (fun _ => 2) 1 = some [1, 0] := by decide

theorem removeIdxRangeValueIdx_eq {dest src : List ℕ} (idx count : ℕ)
    (hd : dest.length = (src.filterMap (removeIdxRangeEntry idx (idx + count) count)).length) :
    removeIdxRangeValueIdx dest src idx count = src.filterMap (removeIdxRangeEntry idx (idx + count) count) := by
  have hloop := writeKeptLoop_blocks (removeIdxRangeEntry idx (idx + count) count) src [] dest [] 0 rfl hd
  simp only [List.nil_append, List.append_nil] at hloop
  rw [removeIdxRangeValueIdx, hloop]

/-! ### A removed run of indexes -/

section Interval

variable {marked : ℕ → Bool} {idx count n : ℕ}

theorem countP_range_interval (hm : ∀ i < n, marked i = decide (idx ≤ i ∧ i < idx + count)) :
    ∀ j ≤ n, (List.range j).countP marked = min count (j - idx)
  | 0, _ => by simp
  | j + 1, hj => by
    have hmj := hm j (by omega)
    rw [List.range_succ, List.countP_append, countP_range_interval hm j (by omega)]
    by_cases hin : idx ≤ j ∧ j < idx + count <;> simp [hin, hmj] <;> omega

theorem removeMarked_interval (hm : ∀ i < n, marked i = decide (idx ≤ i ∧ i < idx + count))
    {p : List ℕ} (hp : ∀ j ∈ p, j < n) :
    removeMarked marked n p = p.filterMap (removeIdxRangeEntry idx (idx + count) count) := by
  rw [removeMarked]
  refine List.filterMap_congr fun j hj => ?_
  have hjn := hp j hj
  rw [removeIdxRangeEntry, hm j hjn, countP_range_interval hm j (Nat.le_of_lt hjn)]
  by_cases hin : idx ≤ j ∧ j < idx + count
  · simp [hin]
  · simp only [hin, decide_false, and_true, hjn, ge_iff_le, if_false, if_true]
    split_ifs <;> congr 1 <;> omega

end Interval

theorem length_removeMarked_of_perm (marked : ℕ → Bool) {n : ℕ} {p : List ℕ} (hp : p.Perm (List.range n)) :
    (removeMarked marked n p).length = n - (List.range n).countP marked := by
  rw [removeMarked, (hp.filterMap _).length_eq, List.length_filterMap_eq_countP]
  have hsum := List.length_eq_countP_add_countP marked (l := List.range n)
  rw [List.length_range] at hsum
  have hkept : (List.range n).countP (fun j => (if j < n ∧ marked j = false then
      some (j - (List.range j).countP marked) else none).isSome) =
      (List.range n).countP fun j => decide ¬marked j = true :=
    List.countP_congr fun j hj => by
      have := List.mem_range.mp hj
      cases marked j <;> simp [this]
  rw [hkept]
  omega

/-! ### The value index after each write -/

/-- On a value index `P` of `n` elements, `order_index_op_add` inserts the new
index at its rank and moves up the indexes from it on, `order_index_op_replace1`
moves one entry, `order_index_op_remove_idx_mask` with a nonzero count drops the
marked indexes and renumbers the rest, and for a run of indexes the rebuild of
`packed_map_remove_idx_range` gives the same index. -/
theorem orderIndexOps_exact {n : ℕ} {P : List ℕ} (hP : P.Perm (List.range n)) :
    (∀ (dest : List ℕ) (a r : ℕ), dest.length = n + 1 → r ≤ n →
      orderIndexOpAdd dest P a r = some ((P.map (orderIndexAdjustLower a 1)).insertIdx r a)) ∧
    (∀ (dest : List ℕ) (rAdd rRm : ℕ) (h : rRm < P.length), dest.length = n → rAdd ≤ n →
      orderIndexOpReplace1 dest P rAdd rRm =
        (P.eraseIdx rRm).insertIdx (if rRm < rAdd then rAdd - 1 else rAdd) P[rRm]) ∧
    (∀ (dest : List ℕ) (mask : ℕ → UInt64) (count : ℕ), count = (List.range n).countP (wordBit mask) →
      count ≠ 0 → dest.length = n - count →
      orderIndexOpRemoveIdxMask dest P mask count = some (removeMarked (wordBit mask) n P)) ∧
    (∀ (dest : List ℕ) (mask : ℕ → UInt64) (idx count : ℕ), idx + count ≤ n → count ≠ 0 →
      (∀ i < n, wordBit mask i = decide (idx ≤ i ∧ i < idx + count)) → dest.length = n - count →
      orderIndexOpRemoveIdxMask dest P mask count = some (removeIdxRangeValueIdx dest P idx count)) := by
  have hlen : P.length = n := by rw [hP.length_eq, List.length_range]
  have hlt : ∀ j ∈ P, j < n := fun j hj => List.mem_range.mp (hP.subset hj)
  refine ⟨fun dest a r hd hr => ?_, fun dest rAdd rRm h hd hadd => ?_, fun dest mask count hcount hpos hd => ?_,
    fun dest mask idx count hrun hpos hm hd => ?_⟩
  · exact orderIndexOpAdd_eq a (by omega) (by omega)
  · exact orderIndexOpReplace1_eq (by omega) h (by omega)
  · rw [← hlen] at hd ⊢
    refine orderIndexOpRemoveIdxMask_eq mask hpos ?_
    rw [length_removeMarked_of_perm _ (hlen ▸ hP), hd, hcount, hlen]
  · have hcount : (List.range n).countP (wordBit mask) = count := by
      rw [countP_range_interval hm n (Nat.le_refl n)]
      omega
    have hkept := removeMarked_interval hm hlt
    have hd' : dest.length = (removeMarked (wordBit mask) P.length P).length := by
      rw [length_removeMarked_of_perm _ (hlen ▸ hP), hlen, hcount, hd]
    rw [orderIndexOpRemoveIdxMask_eq mask hpos hd', hlen, hkept,
      removeIdxRangeValueIdx_eq idx count (by rw [← hkept, ← hlen, ← hd'])]

theorem orderIndexOps_exact_swap :
    ([1, 0] : List ℕ).Perm (List.range 2) ∧
    ((∀ (dest : List ℕ) (a r : ℕ), dest.length = 2 + 1 → r ≤ 2 →
      orderIndexOpAdd dest [1, 0] a r = some (([1, 0].map (orderIndexAdjustLower a 1)).insertIdx r a)) ∧
    (∀ (dest : List ℕ) (rAdd rRm : ℕ) (h : rRm < [1, 0].length), dest.length = 2 → rAdd ≤ 2 →
      orderIndexOpReplace1 dest [1, 0] rAdd rRm =
        ([1, 0].eraseIdx rRm).insertIdx (if rRm < rAdd then rAdd - 1 else rAdd) [1, 0][rRm]) ∧
    (∀ (dest : List ℕ) (mask : ℕ → UInt64) (count : ℕ), count = (List.range 2).countP (wordBit mask) →
      count ≠ 0 → dest.length = 2 - count →
      orderIndexOpRemoveIdxMask dest [1, 0] mask count = some (removeMarked (wordBit mask) 2 [1, 0])) ∧
    (∀ (dest : List ℕ) (mask : ℕ → UInt64) (idx count : ℕ), idx + count ≤ 2 → count ≠ 0 →
      (∀ i < 2, wordBit mask i = decide (idx ≤ i ∧ i < idx + count)) → dest.length = 2 - count →
      orderIndexOpRemoveIdxMask dest [1, 0] mask count = some (removeIdxRangeValueIdx dest [1, 0] idx count))) :=
  ⟨by decide, orderIndexOps_exact (by decide)⟩

/-- With a count of zero nothing is written: the destination keeps what it
held, not the index. -/
theorem orderIndexOpRemoveIdxMask_count_zero :
    orderIndexOpRemoveIdxMask [1] [0] (fun _ => 0) 0 = some [1] ∧
      removeMarked (wordBit fun _ => 0) 1 [0] = [0] :=
  ⟨rfl, by decide⟩

end Aerospike.Cdt
