import Aerospike.Cdt.ListSelect
import Aerospike.Lib.Word

/-! # Writing the elements a mask selects

`cdt_idx_mask_write_eles` (`cdt.c`) copies the elements a bit mask marks out of
the contents of a full offset index, or with `invert` the elements it does not
mark. It does not go element by element: it finds a run of marked elements with
two calls of `cdt_idx_mask_find`, cuts the run to the count still to copy, and
copies the bytes between two index entries, remembering where the inverted copy
resumes. `cdt_idx_mask_find` itself reads the mask a 64-bit word at a time.

The writer is modelled round by round over the bytes of the contents, and shown
to write exactly the marked (or unmarked) elements in index order when the
count is the number of marked elements; the element-level writer the list
operations use is its abstraction. The word scan is shown to find what the scan
of the mask's bits finds.
-/

namespace Aerospike.Cdt

variable {α : Type}

/-! ### Elements by their mark -/

/-- The elements of `eles`, the first at position `i`, whose mark is `b`, in order. -/
def maskedEles (mask : ℕ → Bool) (b : Bool) : ℕ → List α → List α
  | _, [] => []
  | i, x :: xs =>
    if mask i = b then x :: maskedEles mask b (i + 1) xs else maskedEles mask b (i + 1) xs

theorem take_append_extract (eles : List α) {lo hi : ℕ} (h : lo ≤ hi) :
    eles.take lo ++ eles.extract lo hi = eles.take hi := by
  rw [List.extract_eq_take_drop, ← List.take_add, Nat.add_sub_cancel' h]

section Masked

variable {mask : ℕ → Bool} {b : Bool}

theorem maskedEles_append : ∀ (i : ℕ) (xs ys : List α),
    maskedEles mask b i (xs ++ ys) = maskedEles mask b i xs ++ maskedEles mask b (i + xs.length) ys
  | i, [], ys => by simp [maskedEles]
  | i, x :: xs, ys => by
    rw [List.cons_append, maskedEles, maskedEles, maskedEles_append (i + 1) xs ys,
      List.length_cons, Nat.add_assoc, Nat.add_comm 1]
    split_ifs <;> rfl

theorem maskedEles_of_forall : ∀ (i : ℕ) (xs : List α),
    (∀ j, i ≤ j → j < i + xs.length → mask j = b) → maskedEles mask b i xs = xs
  | _, [], _ => rfl
  | i, x :: xs, h => by
    rw [maskedEles, if_pos (h i le_rfl (by simp)),
      maskedEles_of_forall (i + 1) xs (fun j h1 h2 => h j (by omega) (by simp; omega))]

theorem maskedEles_of_forall_ne : ∀ (i : ℕ) (xs : List α),
    (∀ j, i ≤ j → j < i + xs.length → mask j ≠ b) → maskedEles mask b i xs = []
  | _, [], _ => rfl
  | i, x :: xs, h => by
    rw [maskedEles, if_neg (h i le_rfl (by simp)),
      maskedEles_of_forall_ne (i + 1) xs (fun j h1 h2 => h j (by omega) (by simp; omega))]

theorem length_flatten_maskedEles : ∀ (i : ℕ) (xs : List (List UInt8)),
    (maskedEles mask true i xs).flatten.length + (maskedEles mask false i xs).flatten.length =
      xs.flatten.length
  | _, [] => rfl
  | i, x :: xs => by
    have ih : (maskedEles mask true (i + 1) xs).flatten.length +
        (maskedEles mask false (i + 1) xs).flatten.length = xs.flatten.length :=
      length_flatten_maskedEles (i + 1) xs
    cases hm : mask i <;>
      simp only [maskedEles, hm, reduceIte, Bool.false_eq_true, Bool.true_eq_false, List.flatten_cons,
        List.length_append] <;> omega

theorem maskedEles_take_of_forall {eles : List α} {lo hi : ℕ} (hlo : lo ≤ hi)
    (hhi : hi ≤ eles.length) (h : ∀ j, lo ≤ j → j < hi → mask j = b) :
    maskedEles mask b 0 (eles.take hi) = maskedEles mask b 0 (eles.take lo) ++ eles.extract lo hi := by
  rw [← take_append_extract eles hlo, maskedEles_append, List.length_take_of_le (by omega),
    Nat.zero_add, maskedEles_of_forall lo _ (fun j h1 h2 => h j h1 (by
      simp only [List.extract_eq_take_drop, List.length_take, List.length_drop] at h2; omega))]

theorem maskedEles_take_of_forall_ne {eles : List α} {lo hi : ℕ} (hlo : lo ≤ hi)
    (hhi : hi ≤ eles.length) (h : ∀ j, lo ≤ j → j < hi → mask j ≠ b) :
    maskedEles mask b 0 (eles.take hi) = maskedEles mask b 0 (eles.take lo) := by
  rw [← take_append_extract eles hlo, maskedEles_append, List.length_take_of_le (by omega),
    Nat.zero_add, maskedEles_of_forall_ne lo _ (fun j h1 h2 => h j h1 (by
      simp only [List.extract_eq_take_drop, List.length_take, List.length_drop] at h2; omega)), List.append_nil]

end Masked

/-! ### Bytes of elements -/

/-- `memcpy` of `sz` bytes from `offset` of the contents. -/
def copyBytes (contents : List UInt8) (offset sz : ℕ) : List UInt8 := (contents.drop offset).take sz

theorem eleOffset_length (eles : List (List UInt8)) (k : ℕ) :
    eleOffset List.length eles k = (eles.take k).flatten.length := by
  simp [eleOffset, List.length_flatten]

theorem copyBytes_eleOffset (eles : List (List UInt8)) {lo hi : ℕ} (h : lo ≤ hi) :
    copyBytes eles.flatten (eleOffset List.length eles lo)
        (eleOffset List.length eles hi - eleOffset List.length eles lo) =
      (eles.extract lo hi).flatten := by
  have hhi := congrArg (fun l => l.flatten.length) (take_append_extract eles h)
  simp only [List.flatten_append, List.length_append] at hhi
  have hsplit : ∀ (k : ℕ) (xs : List (List UInt8)),
      xs.flatten = (xs.take k).flatten ++ (xs.drop k).flatten := fun k xs => by
    rw [← List.flatten_append, List.take_append_drop]
  rw [eleOffset_length, eleOffset_length, ← hhi, Nat.add_sub_cancel_left, copyBytes,
    hsplit lo eles, List.drop_left, List.extract_eq_take_drop, hsplit (hi - lo) (eles.drop lo),
    List.take_left]

/-! ### Full indexes -/

/-- A filled offset index over `n` elements whose entries are the offsets `offs`. -/
structure OffsetIndex.IsFull (o : OffsetIndex) (n : ℕ) (offs : ℕ → ℕ) : Prop where
  eleCount_eq : o.eleCount = n
  filled_eq : o.filled = n
  contentSz_eq : o.contentSz = offs n
  valid : o.Valid 1 offs

theorem OffsetIndex.IsFull.getConst {o : OffsetIndex} {n : ℕ} {offs : ℕ → ℕ}
    (h : o.IsFull n offs) (h0 : offs 0 = 0) {idx : ℕ} (hidx : idx ≤ n) :
    o.getConst idx = some (offs idx) := by
  have hn := h.eleCount_eq
  unfold OffsetIndex.getConst
  by_cases hz : idx = 0
  · rw [if_pos hz, hz, h0]
  by_cases he : idx = o.eleCount
  · rw [if_neg hz, if_pos he, h.contentSz_eq, he, h.eleCount_eq]
  have hf : o.getFilled = n := by
    rw [OffsetIndex.getFilled, if_neg (by rw [h.eleCount_eq]; omega), h.filled_eq]
  rw [if_neg hz, if_neg he, if_neg (by omega), h.valid idx (by omega) (by omega) (by omega),
    Nat.mul_one]

theorem OffsetIndex.IsFull.getDeltaConst {o : OffsetIndex} {n : ℕ} {offs : ℕ → ℕ}
    (h : o.IsFull n offs) (h0 : offs 0 = 0) {idx : ℕ} (hidx : idx < n) :
    o.getDeltaConst idx = some (offs (idx + 1) - offs idx) := by
  rw [OffsetIndex.getDeltaConst, h.getConst h0 hidx.le, Option.bind_some]
  by_cases hlast : idx + 1 = o.eleCount
  · rw [if_pos hlast, h.contentSz_eq, hlast, h.eleCount_eq]
  · rw [if_neg hlast, h.getConst h0 (by omega), Option.map_some]

theorem fullIndex_isFull (sz : α → ℕ) (eles : List α) :
    (fullIndex sz eles).IsFull eles.length (eleOffset sz eles) :=
  ⟨rfl, rfl, rfl, fullIndex_valid sz eles⟩

/-! ### The writer -/

/-- The locals of the loop of `cdt_idx_mask_write_eles`: the index the next run
is looked for from, the offset the inverted copy resumes at, the marked elements
still to copy, and the bytes written. -/
structure MaskWriteState where
  idx : ℕ
  startOffset : ℕ
  countLeft : ℕ
  out : List UInt8

/-- One round of the loop of `cdt_idx_mask_write_eles`: the next run of marked
elements, cut to `count_left`, is copied, or with `invert` the gap before it;
`false` is the `break` once `count_left` reaches zero. The assertion on `idx0`
and an index entry that is not known give `none`. -/
def maskWriteRound (mask : ℕ → Bool) (full : OffsetIndex) (contents : List UInt8) (invert : Bool)
    (s : MaskWriteState) : Option (MaskWriteState × Bool) :=
  (cdtIdxMaskFind mask s.idx full.eleCount false).bind fun idx0 =>
    if idx0 < full.eleCount then
      (cdtIdxMaskFind mask (idx0 + 1) full.eleCount true).bind fun idx =>
        let idx := if Word.subU32 idx idx0 > s.countLeft then Word.addU32 idx0 s.countLeft else idx
        (full.getConst idx0).bind fun offset0 =>
          (full.getConst idx).map fun offset1 =>
            let s' : MaskWriteState :=
              if invert then
                ⟨idx, offset1, Word.subU32 s.countLeft (Word.subU32 idx idx0),
                  s.out ++ copyBytes contents s.startOffset (offset0 - s.startOffset)⟩
              else
                ⟨idx, s.startOffset, Word.subU32 s.countLeft (Word.subU32 idx idx0),
                  s.out ++ copyBytes contents offset0 (offset1 - offset0)⟩
            if s'.countLeft = 0 then (s', false) else ({ s' with idx := Word.addU32 idx 1 }, true)
    else none

/-- At most `fuel` rounds of the loop, while `idx < ele_count`. -/
def maskWriteLoop (mask : ℕ → Bool) (full : OffsetIndex) (contents : List UInt8) (invert : Bool) :
    ℕ → MaskWriteState → Option MaskWriteState
  | 0, s => some s
  | fuel + 1, s =>
    if s.idx < full.eleCount then
      (maskWriteRound mask full contents invert s).bind fun r =>
        if r.2 then maskWriteLoop mask full contents invert fuel r.1 else some r.1
    else some s

namespace Runs

/-- `cdt_idx_mask_write_eles`: the bytes written for `count` marked elements of
the contents of a full index, or with `invert` for the other elements. Each
round advances `idx`, so `ele_count` rounds are enough. -/
def cdtIdxMaskWriteEles (mask : ℕ → Bool) (count : ℕ) (full : OffsetIndex)
    (contents : List UInt8) (invert : Bool) : Option (List UInt8) :=
  if count = 0 then some (if invert then copyBytes contents 0 full.contentSz else [])
  else
    (maskWriteLoop mask full contents invert full.eleCount ⟨0, 0, count, []⟩).map fun s =>
      if invert then s.out ++ copyBytes contents s.startOffset (full.contentSz - s.startOffset)
      else s.out

end Runs

section Writer

variable {mask : ℕ → Bool} {full : OffsetIndex} {eles : List (List UInt8)}

/-- One round, when `count_left` is the number of marked elements from `idx`
on: it finds the next run `[idx0, idx1)` of marked elements, after unmarked
ones from `idx`, never cuts it, and copies it (or the gap before it); it stops
once no marked element is left after the run. -/
theorem maskWriteRound_spec (hfull : full.IsFull eles.length (eleOffset List.length eles))
    (hb : eles.length + 127 < 2 ^ 32) (invert : Bool) {s : MaskWriteState} (hidx : s.idx ≤ eles.length)
    (hcl : s.countLeft = Scan.countFrom mask s.idx eles.length) (hpos : 0 < s.countLeft) :
    ∃ idx0 idx1, s.idx ≤ idx0 ∧ idx0 < idx1 ∧ idx1 ≤ eles.length ∧
      (∀ j, s.idx ≤ j → j < idx0 → mask j = false) ∧
      (∀ j, idx0 ≤ j → j < idx1 → mask j = true) ∧
      (idx1 < eles.length → mask idx1 = false) ∧
      maskWriteRound mask full eles.flatten invert s = some
        (let cl := Scan.countFrom mask idx1 eles.length
         let s' : MaskWriteState :=
           if invert then
             ⟨idx1, eleOffset List.length eles idx1, cl, s.out ++
               copyBytes eles.flatten s.startOffset (eleOffset List.length eles idx0 - s.startOffset)⟩
           else ⟨idx1, s.startOffset, cl, s.out ++ (eles.extract idx0 idx1).flatten⟩
         if cl = 0 then (s', false) else ({ s' with idx := idx1 + 1 }, true)) := by
  have hn := hfull.eleCount_eq
  have h00 : eleOffset List.length eles 0 = 0 := eleOffset_zero _
  set idx0 := Scan.findFrom mask s.idx eles.length with hidx0
  have h0lt : idx0 < eles.length := Scan.findFrom_lt_of_countFrom_pos (hcl ▸ hpos)
  have hgap : ∀ j, s.idx ≤ j → j < idx0 → mask j = false := fun j h1 h2 =>
    Scan.findFrom_miss h1 h2
  have hm0 : mask idx0 = true := Scan.findFrom_hit h0lt
  set idx1 := Scan.findFrom (fun i => mask i != true) (idx0 + 1) eles.length with hidx1
  have h01 : idx0 + 1 ≤ idx1 := Scan.le_findFrom (by omega)
  have h1n : idx1 ≤ eles.length := Scan.findFrom_le (by omega)
  have hrun : ∀ j, idx0 ≤ j → j < idx1 → mask j = true := fun j h1 h2 => by
    rcases Nat.eq_or_lt_of_le h1 with rfl | hlt
    · exact hm0
    · simpa using Scan.findFrom_miss (p := fun i => mask i != true) (by omega : idx0 + 1 ≤ j) h2
  have hend : idx1 < eles.length → mask idx1 = false := fun h => by
    have hhit := Scan.findFrom_hit (p := fun i => mask i != true) h
    rw [← hidx1] at hhit
    simpa using hhit
  have hcount : s.countLeft = (idx1 - idx0) + Scan.countFrom mask idx1 eles.length := by
    have hs0 : s.idx ≤ idx0 := Scan.le_findFrom hidx
    rw [hcl, ← Scan.countFrom_add hs0 h0lt.le, ← Scan.countFrom_add (by omega : idx0 ≤ idx1) h1n,
      Scan.countFrom_of_forall_not hgap, Scan.countFrom_of_forall hrun]
    omega
  have hfind0 : cdtIdxMaskFind mask s.idx full.eleCount false = some idx0 := by
    rw [hn, cdtIdxMaskFind_of_le hb hidx]
  have hfind1 : cdtIdxMaskFind mask (idx0 + 1) full.eleCount true = some idx1 := by
    rw [hn, cdtIdxMaskFind_eq_findFrom true hb (by omega)]
  have hcl32 : s.countLeft < 2 ^ 32 := by
    have : Scan.countFrom mask s.idx eles.length ≤ eles.length - s.idx := Scan.countFrom_le
    omega
  have hsub : Word.subU32 idx1 idx0 = idx1 - idx0 := Word.subU32_eq_sub (by omega) (by omega)
  have hleft : Word.subU32 s.countLeft (idx1 - idx0) = Scan.countFrom mask idx1 eles.length := by
    rw [Word.subU32_eq_sub (by omega) hcl32]
    omega
  have hnext : Word.addU32 idx1 1 = idx1 + 1 := Word.addU32_eq_add (by omega)
  refine ⟨idx0, idx1, Scan.le_findFrom hidx, by omega, h1n, hgap, hrun, hend, ?_⟩
  rw [maskWriteRound, hfind0, Option.bind_some, if_pos (hn ▸ h0lt), hfind1, Option.bind_some]
  dsimp only
  rw [hsub, if_neg (by omega), hfull.getConst h00 h0lt.le, Option.bind_some,
    hfull.getConst h00 h1n, Option.map_some, hsub, hleft, hnext]
  cases invert
  · rw [copyBytes_eleOffset eles (by omega)]
    rfl
  · rfl

/-- What the writer has copied when a round starts at `s.idx`: without
`invert` the marked elements before it; with `invert` the unmarked elements
before some `k` from whose offset the copy resumes, the elements from `k` to
`s.idx` being unmarked. -/
def MaskWritten (mask : ℕ → Bool) (eles : List (List UInt8)) (invert : Bool)
    (s : MaskWriteState) : Prop :=
  if invert then
    ∃ k ≤ s.idx, s.startOffset = eleOffset List.length eles k ∧
      (∀ j, k ≤ j → j < s.idx → mask j = false) ∧
      s.out = (maskedEles mask false 0 (eles.take k)).flatten
  else s.out = (maskedEles mask true 0 (eles.take s.idx)).flatten

/-- What the writer returns from the state the loop ends in: the bytes of the
marked elements, or with `invert` those of the unmarked ones. -/
def MaskWriteDone (mask : ℕ → Bool) (eles : List (List UInt8)) (invert : Bool)
    (s : MaskWriteState) : Prop :=
  (if invert then
    s.out ++ copyBytes eles.flatten s.startOffset
      (eleOffset List.length eles eles.length - s.startOffset)
  else s.out) = (maskedEles mask (!invert) 0 eles).flatten

theorem out_run_false {s : MaskWriteState} {idx0 idx1 : ℕ} (hw : MaskWritten mask eles false s)
    (hs0 : s.idx ≤ idx0) (h01 : idx0 ≤ idx1) (h1n : idx1 ≤ eles.length)
    (hgap : ∀ j, s.idx ≤ j → j < idx0 → mask j = false)
    (hrun : ∀ j, idx0 ≤ j → j < idx1 → mask j = true) :
    s.out ++ (eles.extract idx0 idx1).flatten = (maskedEles mask true 0 (eles.take idx1)).flatten := by
  rw [MaskWritten, if_neg Bool.false_ne_true] at hw
  rw [hw, maskedEles_take_of_forall h01 h1n hrun,
    maskedEles_take_of_forall_ne hs0 (by omega) (fun j h1 h2 => by simp [hgap j h1 h2]),
    List.flatten_append]

theorem out_run_true {s : MaskWriteState} {idx0 idx1 : ℕ} (hw : MaskWritten mask eles true s)
    (hs0 : s.idx ≤ idx0) (h01 : idx0 ≤ idx1) (h1n : idx1 ≤ eles.length)
    (hgap : ∀ j, s.idx ≤ j → j < idx0 → mask j = false)
    (hrun : ∀ j, idx0 ≤ j → j < idx1 → mask j = true) :
    s.out ++ copyBytes eles.flatten s.startOffset (eleOffset List.length eles idx0 - s.startOffset) =
      (maskedEles mask false 0 (eles.take idx1)).flatten := by
  rw [MaskWritten, if_pos rfl] at hw
  obtain ⟨k, hk, hsk, hkgap, hout⟩ := hw
  have hunmarked : ∀ j, k ≤ j → j < idx0 → mask j = false := fun j h1 h2 => by
    by_cases hj : j < s.idx
    · exact hkgap j h1 hj
    · exact hgap j (by omega) h2
  rw [hout, hsk, copyBytes_eleOffset eles (by omega : k ≤ idx0),
    maskedEles_take_of_forall_ne h01 h1n (fun j h1 h2 => by simp [hrun j h1 h2]),
    maskedEles_take_of_forall (by omega : k ≤ idx0) (by omega) hunmarked, List.flatten_append]

/-- The rounds of the loop: from a state whose `count_left` is the number of
marked elements left and whose copy so far is `MaskWritten`, enough rounds end
the loop by its `break`, in a state from which the writer returns the selected
bytes. Each round goes past at least one element, which bounds the rounds. -/
theorem maskWriteLoop_spec (hfull : full.IsFull eles.length (eleOffset List.length eles))
    (hb : eles.length + 127 < 2 ^ 32) (invert : Bool) : ∀ (fuel : ℕ) (s : MaskWriteState), s.idx ≤ eles.length →
      eles.length - s.idx ≤ fuel → s.countLeft = Scan.countFrom mask s.idx eles.length →
      0 < s.countLeft → MaskWritten mask eles invert s →
      ∃ s', maskWriteLoop mask full eles.flatten invert fuel s = some s' ∧
        MaskWriteDone mask eles invert s'
  | 0, s, hidx, hfuel, hcl, hpos, _ => by
    rw [Scan.countFrom_of_le (by omega)] at hcl
    omega
  | fuel + 1, s, hidx, hfuel, hcl, hpos, hw => by
    obtain ⟨idx0, idx1, hs0, h01, h1n, hgap, hrun, hend, hround⟩ :=
      maskWriteRound_spec hfull hb invert hidx hcl hpos
    have hlt : s.idx < full.eleCount := by rw [hfull.eleCount_eq]; omega
    rw [maskWriteLoop, if_pos hlt, hround, Option.bind_some]
    by_cases hcl0 : Scan.countFrom mask idx1 eles.length = 0
    · have hrest : ∀ j, idx1 ≤ j → j < eles.length → mask j = false := fun j h1 h2 =>
        Scan.miss_of_countFrom_eq_zero hcl0 h1 h2
      have hall : ∀ b, maskedEles mask b 0 eles = maskedEles mask b 0 (eles.take eles.length) :=
        fun b => by rw [List.take_length]
      cases invert
      · simp only [hcl0, reduceIte, Bool.false_eq_true]
        refine ⟨_, rfl, ?_⟩
        rw [MaskWriteDone, if_neg Bool.false_ne_true, Bool.not_false, hall,
          maskedEles_take_of_forall_ne h1n le_rfl (fun j h1 h2 => by simp [hrest j h1 h2])]
        exact out_run_false hw hs0 h01.le h1n hgap hrun
      · simp only [hcl0, reduceIte]
        refine ⟨_, rfl, ?_⟩
        rw [MaskWriteDone, if_pos rfl, Bool.not_true, hall,
          maskedEles_take_of_forall h1n le_rfl hrest, List.flatten_append,
          ← out_run_true hw hs0 h01.le h1n hgap hrun, copyBytes_eleOffset eles h1n]
    · have h1n' : idx1 < eles.length := by
        by_contra h
        rw [Scan.countFrom_of_le (by omega)] at hcl0
        exact hcl0 rfl
      have hm1 := hend h1n'
      have hcl' : Scan.countFrom mask idx1 eles.length =
          Scan.countFrom mask (idx1 + 1) eles.length := by
        rw [Scan.countFrom_of_lt h1n', if_neg (by simp [hm1]), Nat.add_zero]
      have hfuel' : eles.length - (idx1 + 1) ≤ fuel := by omega
      have hpos' : 0 < Scan.countFrom mask idx1 eles.length := Nat.pos_of_ne_zero hcl0
      have hnext : maskedEles mask true 0 (eles.take idx1) =
          maskedEles mask true 0 (eles.take (idx1 + 1)) :=
        (maskedEles_take_of_forall_ne (Nat.le_succ idx1) h1n' (fun j h1 h2 => by
          simp [show j = idx1 by omega, hm1])).symm
      cases invert
      · simp only [hcl0, reduceIte, Bool.false_eq_true]
        refine maskWriteLoop_spec hfull hb false fuel _ h1n' hfuel' hcl' hpos' ?_
        rw [MaskWritten, if_neg Bool.false_ne_true, ← hnext]
        exact (out_run_false hw hs0 h01.le h1n hgap hrun)
      · simp only [hcl0, reduceIte]
        refine maskWriteLoop_spec hfull hb true fuel _ h1n' hfuel' hcl' hpos' ?_
        rw [MaskWritten, if_pos rfl]
        exact ⟨idx1, Nat.le_succ idx1, rfl, fun j h1 h2 => by
          dsimp only at h2
          rw [show j = idx1 by omega, hm1],
          out_run_true hw hs0 h01.le h1n hgap hrun⟩

theorem runs_cdtIdxMaskWriteEles_eq (hfull : full.IsFull eles.length (eleOffset List.length eles))
    (hb : eles.length + 127 < 2 ^ 32) (invert : Bool) :
    Runs.cdtIdxMaskWriteEles mask (Scan.countFrom mask 0 eles.length) full eles.flatten invert =
      some (maskedEles mask (!invert) 0 eles).flatten := by
  have h00 : eleOffset List.length eles 0 = 0 := eleOffset_zero _
  unfold Runs.cdtIdxMaskWriteEles
  by_cases h0 : Scan.countFrom mask 0 eles.length = 0
  · have hnone : ∀ j, 0 ≤ j → j < 0 + eles.length → mask j = false := fun j _ h2 =>
      Scan.miss_of_countFrom_eq_zero h0 (Nat.zero_le j) (by omega)
    have hall : eles.extract 0 eles.length = eles := by
      rw [List.extract_eq_take_drop, List.drop_zero, Nat.sub_zero, List.take_length]
    rw [if_pos h0]
    cases invert
    · rw [maskedEles_of_forall_ne 0 eles (fun j h1 h2 => by simp [hnone j h1 h2])]
      rfl
    · have hcopy := copyBytes_eleOffset eles (Nat.zero_le eles.length)
      rw [h00, Nat.sub_zero, hall, ← hfull.contentSz_eq] at hcopy
      rw [if_pos rfl, hcopy, Bool.not_true, maskedEles_of_forall 0 eles hnone]
  · have hw : MaskWritten mask eles invert ⟨0, 0, Scan.countFrom mask 0 eles.length, []⟩ := by
      cases invert
      · rw [MaskWritten, if_neg Bool.false_ne_true]
        rfl
      · rw [MaskWritten, if_pos rfl]
        exact ⟨0, le_rfl, h00.symm, fun j _ h2 => absurd h2 (Nat.not_lt_zero j), rfl⟩
    obtain ⟨s', hloop, hdone⟩ := maskWriteLoop_spec hfull hb invert full.eleCount
      ⟨0, 0, Scan.countFrom mask 0 eles.length, []⟩ (Nat.zero_le _)
      (by rw [hfull.eleCount_eq]; omega) rfl (Nat.pos_of_ne_zero h0) hw
    rw [if_neg h0, hloop, Option.map_some, ← hdone, hfull.contentSz_eq]

theorem contentSzFrom_eq (hfull : full.IsFull eles.length (eleOffset List.length eles))
    (hb : eles.length + 127 < 2 ^ 32) :
    ∀ (c idx : ℕ), idx ≤ eles.length → Scan.countFrom mask idx eles.length = c →
      contentSzFrom mask full c idx = some (maskedEles mask true idx (eles.drop idx)).flatten.length
  | 0, idx, hidx, hc => by
    rw [contentSzFrom, maskedEles_of_forall_ne idx _ (fun j h1 h2 => by
      rw [List.length_drop] at h2
      simp [Scan.miss_of_countFrom_eq_zero hc h1 (by omega)])]
    rfl
  | c + 1, idx, hidx, hc => by
    have h00 : eleOffset List.length eles 0 = 0 := eleOffset_zero _
    set i := Scan.findFrom mask idx eles.length with hi_def
    have hi : i < eles.length := Scan.findFrom_lt_of_countFrom_pos (by omega)
    have hci := Scan.countFrom_findFrom hi
    rw [← hi_def] at hci
    have hidxi : idx ≤ i := Scan.le_findFrom hidx
    have hsplit : maskedEles mask true idx (eles.drop idx) =
        eles[i] :: maskedEles mask true (i + 1) (eles.drop (i + 1)) := by
      rw [← List.take_append_drop (i - idx) (eles.drop idx), maskedEles_append,
        maskedEles_of_forall_ne idx _ (fun j h1 h2 => by
          simp only [List.length_take, List.length_drop] at h2
          simp [Scan.findFrom_miss h1 (show j < i by omega)]),
        List.nil_append, List.drop_drop, List.length_take, List.length_drop,
        show idx + (i - idx) = i by omega, show idx + min (i - idx) (eles.length - idx) = i by omega,
        List.drop_eq_getElem_cons hi, maskedEles, if_pos (Scan.findFrom_hit hi)]
    rw [contentSzFrom, hfull.eleCount_eq, cdtIdxMaskFind_of_le hb hidx, Option.bind_some,
      ← hi_def, hfull.getDeltaConst h00 hi, Option.bind_some,
      contentSzFrom_eq hfull hb c (i + 1) hi (by omega), Option.map_some, hsplit, List.flatten_cons,
      List.length_append, eleOffset_succ hi]
    congr 1
    omega

end Writer

theorem cdtIdxMaskWriteEles_eq_maskedEles (mask : ℕ → Bool) (invert : Bool) :
    ∀ (eles : List α) (i : ℕ),
      cdtIdxMaskWriteEles mask invert (Scan.countFrom mask i (i + eles.length)) eles i =
        some (maskedEles mask (!invert) i eles)
  | [], i => by
    rw [List.length_nil, Nat.add_zero, Scan.countFrom_of_le le_rfl, cdtIdxMaskWriteEles]
    cases invert <;> rfl
  | x :: xs, i => by
    have ih := cdtIdxMaskWriteEles_eq_maskedEles mask invert xs (i + 1)
    have hlen : i + (x :: xs).length = i + 1 + xs.length := by simp; omega
    rw [hlen, Scan.countFrom_of_lt (by omega)]
    by_cases h0 : Scan.countFrom mask (i + 1) (i + 1 + xs.length) + (if mask i then 1 else 0) = 0
    · have hm : mask i = false := by
        cases hmi : mask i
        · rfl
        · rw [if_pos hmi] at h0; omega
      have hnone : ∀ j, i ≤ j → j < i + (x :: xs).length → mask j = false := fun j h1 h2 => by
        rcases Nat.eq_or_lt_of_le h1 with rfl | hlt
        · exact hm
        · exact Scan.miss_of_countFrom_eq_zero
            (show Scan.countFrom mask (i + 1) (i + 1 + xs.length) = 0 by omega)
            (show i + 1 ≤ j by omega) (by simp at h2; omega)
      rw [h0, cdtIdxMaskWriteEles]
      cases invert
      · rw [Bool.not_false, maskedEles_of_forall_ne i _ (fun j h1 h2 => by simp [hnone j h1 h2])]
        rfl
      · rw [Bool.not_true, maskedEles_of_forall i _ hnone]
        rfl
    · obtain ⟨c, hc⟩ := Nat.exists_eq_add_one_of_ne_zero h0
      rw [hc, cdtIdxMaskWriteEles, maskedEles]
      cases hmi : mask i
      · rw [hmi, if_neg (by decide), Nat.add_zero] at hc
        rw [if_neg (by decide), ← hc, ih, Option.map_some]
        cases invert <;> rfl
      · rw [hmi, if_pos rfl, Nat.add_one_inj] at hc
        rw [if_pos rfl, ← hc, ih, Option.map_some]
        cases invert <;> rfl

theorem runs_cdtIdxMaskWriteEles_eq_flatten {full : OffsetIndex} {eles : List (List UInt8)}
    (hfull : full.IsFull eles.length (eleOffset List.length eles)) (hb : eles.length + 127 < 2 ^ 32)
    (mask : ℕ → Bool) (invert : Bool) :
    Runs.cdtIdxMaskWriteEles mask (Scan.countFrom mask 0 eles.length) full eles.flatten invert =
      (cdtIdxMaskWriteEles mask invert (Scan.countFrom mask 0 eles.length) eles 0).map
        List.flatten := by
  have h := cdtIdxMaskWriteEles_eq_maskedEles mask invert eles 0
  rw [Nat.zero_add] at h
  rw [runs_cdtIdxMaskWriteEles_eq hfull hb, h, Option.map_some]

/-- For the contents of a full index of `n` elements and a mask with `count`
marked elements below `n`, `cdt_idx_mask_write_eles` writes the marked elements
in index order, and with `invert` the unmarked ones. What it writes without
`invert` is `cdt_idx_mask_get_content_sz` bytes, and with `invert` the rest of
the contents. -/
theorem cdtIdxMaskWriteEles_writes_selected {full : OffsetIndex} {eles : List (List UInt8)}
    (hfull : full.IsFull eles.length (eleOffset List.length eles)) (hb : eles.length + 127 < 2 ^ 32)
    (mask : ℕ → Bool) :
    ∃ sz, Runs.cdtIdxMaskWriteEles mask (Scan.countFrom mask 0 eles.length) full eles.flatten false =
        some (maskedEles mask true 0 eles).flatten ∧
      Runs.cdtIdxMaskWriteEles mask (Scan.countFrom mask 0 eles.length) full eles.flatten true =
        some (maskedEles mask false 0 eles).flatten ∧
      cdtIdxMaskGetContentSz mask (Scan.countFrom mask 0 eles.length) full = some sz ∧
      (maskedEles mask true 0 eles).flatten.length = sz ∧
      (maskedEles mask false 0 eles).flatten.length = full.contentSz - sz := by
  have hsz := contentSzFrom_eq hfull hb (Scan.countFrom mask 0 eles.length) 0 (Nat.zero_le _) rfl
  rw [List.drop_zero] at hsz
  have hparts : (maskedEles mask true 0 eles).flatten.length +
      (maskedEles mask false 0 eles).flatten.length = eles.flatten.length :=
    length_flatten_maskedEles 0 eles
  refine ⟨_, runs_cdtIdxMaskWriteEles_eq hfull hb false, runs_cdtIdxMaskWriteEles_eq hfull hb true,
    hsz, rfl, ?_⟩
  rw [hfull.contentSz_eq, eleOffset_length, List.take_length]
  omega


section Wrap

variable {full : OffsetIndex} {contents : List UInt8}

end Wrap

def byteEles : List (List UInt8) := [[1], [2, 3], [4], [5, 6]]

example : (maskedEles (fun i => i == 1 || i == 2) true 0 byteEles).flatten = [2, 3, 4] ∧
    (maskedEles (fun i => i == 1 || i == 2) false 0 byteEles).flatten = [1, 5, 6] := by
  decide

end Aerospike.Cdt
